import AiDaemon.Dispatch
import AiDaemon.Fallible
import AiDaemon.Grammar
import AiDaemon.Grants
import AiDaemon.Sched
import AiDaemon.Serving
import AiDaemon.Settlement

/-!
# A turn up to its request (`session.rs`: `turn`, `model_serves`)

Before a turn reaches its backend it passes a row of checks, each of which ends it with
one error event: policy, the model's claims, tools and their grammar, loading, context,
rates, the KV cache, and then, with the cache reserved, the attachments.  `Reserving` is
a turn that has passed those in front of the cache, and `Cleared` one that has passed
them all and makes its request.

The last check asks for one capability, whatever kinds of attachments there are: with a
sound among them it asks for `audio-in` only, and pictures go along unasked
(`attachments_taken_iff`).
-/

namespace AiDaemon.WholeTurn

open Fallible Grants Json Ledger Policy Proto Rate Settlement Spend TokenBucket Turn
open Provenance (framedMessages)
open Serving (cannotText)

/-! ### The source -/

def capGenerate : Text := "generate".toList

/-- What a backend says of a model that it has loaded. -/
structure Loaded where
  kvBytesPerToken : UInt64
  nCtx : UInt32

/-- What `turn` reads of its worker and its session, and what the rest of the daemon answers
    it: the policy, the table of backends, the backend that loads the model, and the ledgers
    as they are then. -/
structure Call (R N F : Type) where
  worker : TurnWorker R (Grammar.Schema N)
  floats : Floats N
  sessionId : Text
  cls : Sched.Class
  capabilities : List Text
  maxContext : UInt32
  held : Table Text RawAttachment
  proto : UInt32
  nonce : Text
  budget : Option (Bucket ℚ)
  history : List Message
  params : Params F
  grammar : Option Text
  pendingToolCalls : List Text
  policy : Text → Except Text Unit
  backend : Except Text Backend
  loaded : Except Text Loaded
  spend : Except Text Unit
  buckets : Buckets
  meter : Meter
  now : ℚ

/-- What is known of a turn once its model is loaded. -/
structure Prepared where
  backend : Backend
  grammar : Option Text
  loaded : Loaded

/-- An error event of this code. -/
def refuse {α : Type} (code : Text) : Except Text α → Except ErrorBody α :=
  Except.mapError (ErrorBody.mk code)

def modelLacksText (model capability : Text) (capabilities : List Text) : Text :=
  let claimed := if capabilities = [] then "nothing".toList
    else ", ".toList.intercalate capabilities
  "model ".toList ++ model ++ " does not offer ".toList ++ capability ++ " (it offers: ".toList ++
    claimed ++ "). If it should, an administrator can reinstall it with `aidctl install ".toList ++
    "--capability ".toList ++ capability ++ "`; otherwise ask for a model that does.".toList

def noWideningText : Text :=
  "this session was opened without tool calling and cannot be widened".toList

def noToolCallingText (backend : Backend) : Text :=
  "backend ".toList ++ backend.name ++ " does not offer tool calling".toList

def loadingText (model e : Text) : Text := "loading ".toList ++ model ++ ": ".toList ++ e

def tooManyText (count bytes : Nat) : Text :=
  Text.ofNat count ++ " attachment(s) totalling ".toList ++ Text.ofNat bytes ++
    " decoded bytes exceed the ".toList ++ Text.ofNat Dispatch.maxAttachmentPayload ++
    " bytes one request can carry; send fewer, or smaller ones".toList

section Calls

variable {R N F : Type} (call : Call R N F)

def Call.modelServes (capability : Text) : Except Text Unit :=
  if capability ∈ call.capabilities then .ok ()
  else .error (modelLacksText call.worker.account.model capability call.capabilities)

/-- The grammar of the client, or the one that its tools compile to. -/
def Call.effectiveGrammar (backend : Backend) : Except ErrorBody (Option Text) :=
  match call.worker.tools with
  | none => .ok call.grammar
  | some tools =>
    if call.worker.account.limits.noTools then .error ⟨"policy-denied".toList, noWideningText⟩
    else if !backend.can "tools".toList then
      .error ⟨"attachment-unsupported".toList, noToolCallingText backend⟩
    else if backend.can "grammar".toList then
      match Grammar.compile call.floats (quoted call.worker.isEscaped) tools with
      | .ok compiled => .ok (some compiled.gbnf)
      | .error e => .error ⟨"protocol".toList, "tool schema: ".toList ++ e⟩
    else .ok call.grammar

/-- `turn` up to and with loading its model. -/
def Call.prepare : Except ErrorBody Prepared := do
  let capability := if call.worker.tools.isSome then capGenerateTools else capGenerate
  refuse "policy-denied".toList (call.policy capability)
  refuse "attachment-unsupported".toList (call.modelServes "generate".toList)
  let backend ← refuse "backend-failed".toList call.backend
  let grammar ← call.effectiveGrammar backend
  let loaded ← refuse "backend-failed".toList
    (call.loaded.mapError (loadingText call.worker.account.model))
  return ⟨backend, grammar, loaded⟩

/-- The turn as its rate checks and its loop know it. -/
def Call.turnCall (prepared : Prepared) (begun : Option (Begun F)) :
    Settlement.TurnCall R (Grammar.Schema N) F where
  worker := call.worker
  budget := call.budget
  spend := call.spend
  history := call.history
  held := call.held
  pendingToolCalls := call.pendingToolCalls
  maxTokens := call.params.maxTokens
  effectiveCtx := min call.maxContext (max prepared.loaded.nCtx 1)
  now := call.now
  begun := begun

/-- The checks of context, spend and rates, which let a number of tokens through. -/
def Call.checked (prepared : Prepared) : Checked :=
  (call.turnCall prepared none).checked call.buckets

def Call.kvBytes (prepared : Prepared) (reserve : UInt64) : UInt64 :=
  saturatingMul reserve prepared.loaded.kvBytesPerToken

/-- The held attachments that the history names. -/
def Call.attachments : List RawAttachment := attachmentsOf call.history call.held

def isAudio (attachment : RawAttachment) : Bool := attachment.kind = "audio".toList

def neededFor (attachments : List RawAttachment) : Text :=
  if attachments.any isAudio then "audio-in".toList else "vision".toList

def Call.kindCheck (backend : Backend) : Except ErrorBody Unit :=
  if call.attachments = [] then .ok ()
  else if !backend.can (neededFor call.attachments) then
    .error ⟨"attachment-unsupported".toList,
      cannotText backend.name (neededFor call.attachments)⟩
  else refuse "attachment-unsupported".toList (call.modelServes (neededFor call.attachments))

def Call.sizeCheck : Except ErrorBody Unit :=
  let bytes := (call.attachments.map fun a => UInt64.ofNat a.data.length).sum
  if bytes > .ofNat Dispatch.maxAttachmentPayload then
    .error ⟨"policy-denied".toList, tooManyText call.attachments.length bytes.toNat⟩
  else .ok ()

/-- What `turn` checks once the cache is reserved. -/
def Call.attachmentCheck (backend : Backend) : Except ErrorBody Unit := do
  call.kindCheck backend
  call.sizeCheck

def Call.request (prepared : Prepared) (reqId : UInt64) : BackendRequest F (Grammar.Schema N) :=
  .generate reqId call.worker.account.model call.sessionId
    (framedMessages call.worker.account.limits call.nonce call.history) call.params
    prepared.grammar call.worker.tools
    (2 ≤ call.proto && prepared.backend.can "parallel-tools".toList) call.attachments

end Calls

/-- A turn that goes on to reserve its cache. -/
structure Reserving (R N F : Type) where
  call : Call R N F
  prepared : Prepared
  reserve : UInt64
  prepares : call.prepare = .ok prepared
  allowed : (call.checked prepared).result = .ok reserve

/-- A turn that goes on to make its request. -/
structure Cleared (R N F : Type) extends Reserving R N F where
  carries : call.attachmentCheck prepared.backend = .ok ()

/-! ### Attachments -/

section Attachments

variable {R N F : Type}

def Cleared.request (t : Cleared R N F) (reqId : UInt64) : BackendRequest F (Grammar.Schema N) :=
  t.call.request t.prepared reqId

def attachmentsIn {J : Type} : BackendRequest F J → List RawAttachment
  | .generate _ _ _ _ _ _ _ _ attachments => attachments
  | _ => []

/-- The capability for attachments of a kind. -/
def capabilityFor (kind : Text) : Option Text :=
  if kind = "image".toList then some "vision".toList
  else if kind = "audio".toList then some "audio-in".toList
  else none

/-- The backend declares and the model claims it. -/
def Cleared.Has (t : Cleared R N F) (capability : Text) : Prop :=
  t.prepared.backend.can capability = true ∧ capability ∈ t.call.capabilities

/-- Every attachment that is sent is of a kind that backend and model take. -/
def Cleared.Takes (t : Cleared R N F) (reqId : UInt64) : Prop :=
  ∀ a ∈ attachmentsIn (t.request reqId), ∀ capability ∈ capabilityFor a.kind, t.Has capability

theorem sizeCheck_of_check {call : Call R N F} {backend : Backend}
    (h : call.attachmentCheck backend = .ok ()) :
    call.kindCheck backend = .ok () ∧ call.sizeCheck = .ok () := by
  obtain ⟨_, hkind, hsize⟩ := bind_eq_ok.mp h
  exact ⟨hkind, hsize⟩

/-- The one capability that is asked for is there. -/
theorem Cleared.has_needed (t : Cleared R N F) (h : t.call.attachments ≠ []) :
    t.Has (neededFor t.call.attachments) := by
  have hkind := (sizeCheck_of_check t.carries).1
  unfold Call.kindCheck at hkind
  rw [if_neg h] at hkind
  by_cases hcan : t.prepared.backend.can (neededFor t.call.attachments) = true
  · simp only [hcan, Bool.not_true, Bool.false_eq_true, if_false, Call.modelServes] at hkind
    split at hkind
    · rename_i hclaims
      exact ⟨hcan, hclaims⟩
    · cases hkind
  · simp [hcan] at hkind

theorem capabilityFor_image {kind : Text} (h : kind = "image".toList) :
    capabilityFor kind = some "vision".toList := if_pos h

theorem capabilityFor_cases {kind capability : Text} (h : capability ∈ capabilityFor kind) :
    (kind = "image".toList ∧ capability = "vision".toList) ∨
      (kind = "audio".toList ∧ capability = "audio-in".toList) := by
  unfold capabilityFor at h
  split at h
  · rename_i himage
    exact Or.inl ⟨himage, (Option.some.inj h).symm⟩
  · split at h
    · rename_i haudio
      exact Or.inr ⟨haudio, (Option.some.inj h).symm⟩
    · cases h

theorem any_isAudio {attachments : List RawAttachment} :
    attachments.any isAudio = true ↔ ∃ a ∈ attachments, a.kind = "audio".toList := by
  simp only [List.any_eq_true, isAudio, decide_eq_true_eq]

/-- Backend and model take every attachment of a request exactly when no pictures go along
    with sounds, or they take pictures too. And every held attachment that the history names
    is in the request. -/
theorem attachments_taken_iff (t : Cleared R N F) (reqId : UInt64) :
    (t.Takes reqId ↔
      ((∃ a ∈ t.call.attachments, a.kind = "audio".toList) →
        (∃ a ∈ t.call.attachments, a.kind = "image".toList) → t.Has "vision".toList)) ∧
    ∀ message ∈ t.call.history, ∀ id ∈ message.attachments, ∀ a,
      t.call.held.lookup id = some a → a ∈ attachmentsIn (t.request reqId) := by
  constructor
  · constructor
    · rintro htakes - ⟨a, ha, hkind⟩
      exact htakes a ha _ (capabilityFor_image hkind)
    · intro hmixed a ha capability hcapability
      have hsent : a ∈ t.call.attachments := ha
      have hneeded := t.has_needed (List.ne_nil_of_mem hsent)
      by_cases haudio : ∃ b ∈ t.call.attachments, b.kind = "audio".toList
      · rw [neededFor, if_pos (any_isAudio.mpr haudio)] at hneeded
        rcases capabilityFor_cases hcapability with ⟨himage, rfl⟩ | ⟨-, rfl⟩
        · exact hmixed haudio ⟨a, hsent, himage⟩
        · exact hneeded
      · rw [neededFor, if_neg (mt any_isAudio.mp haudio)] at hneeded
        rcases capabilityFor_cases hcapability with ⟨-, rfl⟩ | ⟨hkind, rfl⟩
        · exact hneeded
        · exact absurd ⟨a, hsent, hkind⟩ haudio
  · intro message hmessage id hid a ha
    show a ∈ attachmentsOf t.call.history t.call.held
    apply List.mem_filterMap.mpr
    exact ⟨id, List.mem_flatMap.mpr ⟨message, hmessage, hid⟩, ha⟩

end Attachments

/-- A hosted model at a thousand tokens a minute. -/
def plainWorker : TurnWorker ℚ (Grammar.Schema Empty) where
  f64 := rationals
  prices := []
  account := hosted.account
  backend := "remote".toList
  tools := none
  stream := true
  backendSilenceSeconds := 0
  isJson := fun _ => false
  isEscaped := fun _ => false

/-- A turn of one message, on a backend and a model with some capabilities. -/
def plainCall (capabilities : List Text) (attachments : List RawAttachment) (maxTokens : UInt32) :
    Call ℚ Empty Nat where
  worker := plainWorker
  floats := ⟨fun _ => none, Empty.elim⟩
  sessionId := "s-1".toList
  cls := .interactive
  capabilities := "generate".toList :: capabilities
  maxContext := 4096
  held := attachments.foldl (fun held a => held.insert a.id a) ∅
  proto := 2
  nonce := []
  budget := none
  history := [⟨"user".toList, "hello".toList, attachments.map RawAttachment.id, none⟩]
  params := { Params.default with maxTokens := some maxTokens }
  grammar := none
  pendingToolCalls := []
  policy := fun _ => .ok ()
  backend := .ok ⟨"remote".toList, "generate".toList :: capabilities, false⟩
  loaded := .ok ⟨1, 4096⟩
  spend := .ok ()
  buckets := ∅
  meter := ⟨∅, ∅⟩
  now := 0

/-- A second of silence. -/
def sound : RawAttachment := ⟨"b".toList, "audio".toList, none, none, none, some 1, [0, 0, 0, 0]⟩

def hearing : Cleared ℚ Empty Nat where
  call := plainCall ["audio-in".toList] [picture 1, sound] 16
  prepared := ⟨⟨"remote".toList, ["generate".toList, "audio-in".toList], false⟩, none, ⟨1, 4096⟩⟩
  reserve := 22
  prepares := rfl
  allowed := eq_ok_of_toOption (by decide +kernel)
  carries := rfl

/-- A model that hears is sent a picture along with a sound. -/
theorem picture_sent_unseen :
    ¬ ∀ (t : Cleared ℚ Empty Nat) (reqId : UInt64), t.Takes reqId := by
  intro hall
  have hvision := (hall hearing 1 (picture 1) List.mem_cons_self "vision".toList rfl).1
  revert hvision
  decide

end AiDaemon.WholeTurn
