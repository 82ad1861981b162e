import AiDaemon.Control
import AiDaemon.WholeTurn

/-!
# Models are resident (`session.rs`: `turn`, `generate_media`, `embed`, `tokenize`)

A backend can work with a model that it was asked to load and has said to be loaded.
A turn and a media request ask for that before they make their request; an embedding
and a tokenizing do not.

The steps are the requests of sessions, one after the other, and the loads that a pin
asks for.  What the daemon sends to the backend and hears of it on the control channel
is kept in order, and nothing is unloaded.
-/

namespace AiDaemon.Residency

open Control Fallible Grants Ledger Proto Rate Routing Settlement Spend Transition Turn WholeTurn

/-! ### What comes before -/

section Traces

variable {α : Type} {Q : List α → α → Prop} {l k : List α}

/-- Every entry stands in `Q` to what is before it. -/
def EachAfter (Q : List α → α → Prop) (l : List α) : Prop :=
  ∀ before x after, l = before ++ x :: after → Q before x

theorem eachAfter_nil : EachAfter Q [] := by
  intro before x after happ
  simp at happ

theorem eachAfter_append :
    EachAfter Q (l ++ k) ↔ EachAfter Q l ∧ EachAfter (fun before => Q (l ++ before)) k := by
  constructor
  · intro h
    constructor
    · intro before x after happ
      exact h before x (after ++ k) (by rw [happ, List.append_assoc, List.cons_append])
    · intro before x after happ
      exact h (l ++ before) x after (by rw [happ, List.append_assoc])
  · rintro ⟨hl, hk⟩ before x after happ
    rcases List.append_eq_append_iff.mp happ with ⟨more, rfl, hmore⟩ | ⟨more, rfl, hmore⟩
    · exact hk more x after hmore
    · rcases List.cons_eq_append_iff.mp hmore with ⟨rfl, rfl⟩ | ⟨rest, rfl, -⟩
      · have hhead := hk [] x after rfl
        rwa [List.append_nil, List.append_nil] at hhead
      · exact hl before x rest rfl

theorem eachAfter_singleton {x : α} : EachAfter Q [x] ↔ Q [] x := by
  constructor
  · intro h
    exact h [] x [] rfl
  · intro h before y after happ
    rcases List.cons_eq_append_iff.mp happ with ⟨rfl, hcons⟩ | ⟨rest, -, hnil⟩
    · rw [(List.cons.inj hcons).1]
      exact h
    · simp at hnil

end Traces

/-! ### The source -/

variable {R N F J : Type}

/-- What passes between the daemon and one backend. -/
inductive Traffic (F J : Type) where
  | sent (request : BackendRequest F J)
  /-- Taken off the control channel. -/
  | heard (event : BackendEvent F)

/-- What the daemon keeps of a backend, and the traffic so far, oldest first. -/
structure Link (F J : Type) where
  loaded : Table Text LoadedModel
  nextReq : UInt64
  traffic : List (Traffic F J)

/-- A backend that has just been spawned. -/
def spawned : Link F J := ⟨∅, 1, []⟩

/-- What the backend answers to one request: whether `Load` is written, what comes down
    the control channel until the deadline, and whether the request itself is written. -/
structure Answers (F : Type) where
  written : Except Text Unit
  replies : List (BackendEvent F)
  begun : Except Text Unit

/-- The waiting loop of `load`, and what it took off the channel. -/
def awaitLoaded (name : Text) (op : Op) :
    List (BackendEvent F) → Except Text LoadedModel × List (BackendEvent F)
  | [] => (.error (lateText name), [])
  | event :: rest =>
    match op.reply event with
    | .inserting model => (.ok model, [event])
    | .returning (.failed reason) => (.error reason, [event])
    | _ =>
      let (result, heard) := awaitLoaded name op rest
      (result, event :: heard)

/-- `Backend::load`. -/
def Link.load (link : Link F J) (name model path digest : Text) (nCtx : UInt32)
    (answers : Answers F) : Except Text LoadedModel × Link F J :=
  match link.loaded.lookup model with
  | some existing => (.ok existing, link)
  | none =>
    match answers.written with
    | .error e => (.error e, link)
    | .ok () =>
      let op := Op.load model path digest nCtx
      let (result, heard) := awaitLoaded name op answers.replies
      let traffic := link.traffic ++ .sent op.request :: heard.map .heard
      match result with
      | .error e => (.error e, { link with traffic := traffic })
      | .ok answered =>
        (.ok answered, { link with
          loaded := link.loaded.insert answered.modelId answered
          traffic := traffic })

/-- `Backend::begin`. -/
def Link.begin (link : Link F J) (make : UInt64 → BackendRequest F J) (answers : Answers F) :
    Except Text UInt64 × Link F J :=
  let next := { link with nextReq := link.nextReq + 1 }
  match answers.begun with
  | .error e => (.error e, next)
  | .ok () =>
    (.ok link.nextReq, { next with traffic := link.traffic ++ [.sent (make link.nextReq)] })

inductive Outcome where
  | begun (reqId : UInt64)
  | refused (error : ErrorBody)
  | panicked

/-- How a request begins, and what the client is told where it cannot. -/
def Link.start (link : Link F J) (make : UInt64 → BackendRequest F J) (refusal : Text → Text)
    (answers : Answers F) : Outcome × Link F J :=
  match link.begin make answers with
  | (.error e, next) => (.refused ⟨"backend-failed".toList, refusal e⟩, next)
  | (.ok reqId, next) => (.begun reqId, next)

/-- What one request of a session reads, and what it is answered. The answer to its load
    is the backend's, and not `loaded`. -/
structure Asked (R N F : Type) extends WholeTurn.Call R N F where
  blob : Text
  digest : Text
  maxPerSession : UInt32
  kv : Except Text Unit
  answers : Answers F

def MediaKind.capability : MediaKind → Text
  | .image => "image-out".toList
  | .audio => "audio-out".toList

def cannotEmbedText (backend : Backend) : Text :=
  "backend ".toList ++ backend.name ++ " does not embed".toList

def doesNotText (backend : Backend) (capability : Text) : Text :=
  "backend ".toList ++ backend.name ++ " does not ".toList ++ capability

def noEmbeddingText : Text := "could not start an embedding request".toList

def noTokenizeText : Text := "could not start a tokenize request".toList

section Source

variable (asked : Asked R N F) (link : Link F (Grammar.Schema N))

def Asked.model : Text := asked.worker.account.model

def Asked.rated : Rate.Worker :=
  ⟨asked.worker.account.identity, asked.worker.account.limits, asked.maxPerSession⟩

/-- A request goes on with the loaded model, or fails where it is not loaded. -/
def Asked.loading (name : Text)
    (next : LoadedModel → Link F (Grammar.Schema N) → Outcome × Link F (Grammar.Schema N)) :
    Outcome × Link F (Grammar.Schema N) :=
  match link.load name asked.model asked.blob asked.digest asked.maxContext asked.answers with
  | (.error e, last) => (.refused ⟨"backend-failed".toList, loadingText asked.model e⟩, last)
  | (.ok loaded, last) => next loaded last

/-- `turn` up to loading its model. -/
def Asked.ready : Except ErrorBody (Backend × Option Text) := do
  let capability := if asked.worker.tools.isSome then capGenerateTools else capGenerate
  refuse "policy-denied".toList (asked.policy capability)
  refuse "attachment-unsupported".toList (asked.modelServes "generate".toList)
  let backend ← refuse "backend-failed".toList asked.backend
  let grammar ← asked.effectiveGrammar backend
  return (backend, grammar)

/-- The turn's checks of rates, cache and attachments. -/
def Asked.admitted (prepared : Prepared) : Except ErrorBody Unit := do
  let _ ← (asked.checked prepared).result
  refuse "rate-limited".toList asked.kv
  asked.attachmentCheck prepared.backend

def Asked.turn : Outcome × Link F (Grammar.Schema N) :=
  match asked.ready with
  | .error body => (.refused body, link)
  | .ok (backend, grammar) =>
    asked.loading link backend.name fun loaded next =>
      let prepared : Prepared := ⟨backend, grammar, ⟨loaded.kvBytesPerToken, loaded.nCtx⟩⟩
      match asked.admitted prepared with
      | .error body => (.refused body, next)
      | .ok () => next.start (asked.request prepared) id asked.answers

/-- `generate_media` up to loading its model. -/
def Asked.readyMedia (kind : MediaKind) : Except ErrorBody Backend := do
  if asked.proto < 2 then throw ⟨"protocol".toList, Dispatch.oldProtoText⟩
  refuse "policy-denied".toList (asked.policy capGenerateMedia)
  let backend ← refuse "backend-failed".toList asked.backend
  if !backend.can (MediaKind.capability kind) then
    throw ⟨"attachment-unsupported".toList, doesNotText backend (MediaKind.capability kind)⟩
  refuse "attachment-unsupported".toList (asked.modelServes (MediaKind.capability kind))
  return backend

def Asked.generateMedia (kind : MediaKind) (prompt : Text) (params : Params F) (count : UInt32) :
    Outcome × Link F (Grammar.Schema N) :=
  match asked.readyMedia kind with
  | .error body => (.refused body, link)
  | .ok backend =>
    match clampCount count asked.maxPerSession with
    | none => (.panicked, link)
    | some count =>
      asked.loading link backend.name fun _ next =>
        let estimate := estimateTokens prompt + count.toUInt64 * 64
        match (chargeIdentity asked.rated asked.budget asked.buckets asked.now estimate
          (overAllowanceText asked.rated)).result with
        | .error body => (.refused body, next)
        | .ok _ =>
          next.start (fun reqId =>
            .generateMedia reqId asked.model asked.sessionId kind prompt params count) id
            asked.answers

/-- The checks of `embed`. -/
def Asked.readyEmbed (inputs : List Text) : Except ErrorBody Unit := do
  refuse "policy-denied".toList (asked.policy capEmbed)
  let backend ← refuse "backend-failed".toList asked.backend
  if !backend.can "embed".toList then
    throw ⟨"attachment-unsupported".toList, cannotEmbedText backend⟩
  refuse "attachment-unsupported".toList (asked.modelServes "embed".toList)
  let _ ← (embedCheck asked.rated asked.budget asked.buckets asked.now asked.spend inputs).result

def Asked.embed (inputs : List Text) : Outcome × Link F (Grammar.Schema N) :=
  match asked.readyEmbed inputs with
  | .error body => (.refused body, link)
  | .ok () =>
    link.start (fun reqId => .embed reqId asked.model inputs) (fun _ => noEmbeddingText)
      asked.answers

/-- The one check of `tokenize`. -/
def Asked.readyTokenize : Except ErrorBody Unit := do
  let _ ← refuse "backend-failed".toList asked.backend

def Asked.tokenize (text : Text) : Outcome × Link F (Grammar.Schema N) :=
  match asked.readyTokenize with
  | .error body => (.refused body, link)
  | .ok () =>
    link.start (fun reqId => .tokenize reqId asked.model text) (fun _ => noTokenizeText)
      asked.answers

end Source

/-- A request of a session that reaches the backend, or the load that a pin asks for. -/
inductive Doing (R N F : Type) where
  | turn (asked : Asked R N F)
  | generateMedia (asked : Asked R N F) (kind : MediaKind) (prompt : Text) (params : Params F)
      (count : UInt32)
  | embed (asked : Asked R N F) (inputs : List Text)
  | tokenize (asked : Asked R N F) (text : Text)
  | pin (name model blob digest : Text) (nCtx : UInt32) (answers : Answers F)

def linkStep (link : Link F (Grammar.Schema N)) :
    Doing R N F → Option (Link F (Grammar.Schema N))
  | .turn asked => some (asked.turn link).2
  | .generateMedia asked kind prompt params count =>
    some (asked.generateMedia link kind prompt params count).2
  | .embed asked inputs => some (asked.embed link inputs).2
  | .tokenize asked text => some (asked.tokenize link text).2
  | .pin name model blob digest nCtx answers =>
    some (link.load name model blob digest nCtx answers).2

/-! ### Resident -/

/-- The model that a request is to work with. -/
def worksOn : BackendRequest F J → Option Text
  | .generate _ model _ _ _ _ _ _ _ | .embed _ model _ | .generateMedia _ model _ _ _ _ _
  | .tokenize _ model _ => some model
  | _ => none

def Traffic.worksOn : Traffic F J → Option Text
  | sent request => Residency.worksOn request
  | heard _ => none

/-- The backend was asked to load the model, and then it said that it has. -/
def Answered (traffic : List (Traffic F J)) (model : Text) : Prop :=
  ∃ before between after path digest nCtx kvBytesPerToken actualCtx,
    traffic = before ++ .sent (.load model path digest nCtx) ::
      (between ++ .heard (.loaded model kvBytesPerToken actualCtx) :: after)

/-- Every request names a model that was loaded before. -/
def NamesResident (traffic : List (Traffic F J)) : Prop :=
  EachAfter (fun before x => ∀ model ∈ x.worksOn, Answered before model) traffic

/-- What is known to be loaded was. -/
def Link.Known (link : Link F J) : Prop :=
  ∀ model, (link.loaded.lookup model).isSome = true → Answered link.traffic model

/-- An embedding or a tokenizing that is sent comes when its model is loaded. -/
def NamesLoaded (link : Link F (Grammar.Schema N)) : Doing R N F → Prop
  | .embed asked inputs => asked.readyEmbed inputs = .ok () → asked.answers.begun = .ok () →
      Answered link.traffic asked.model
  | .tokenize asked _ => asked.readyTokenize = .ok () → asked.answers.begun = .ok () →
      Answered link.traffic asked.model
  | .turn _ | .generateMedia _ _ _ _ _ | .pin _ _ _ _ _ _ => True

theorem Answered.append {traffic : List (Traffic F J)} {model : Text} (h : Answered traffic model)
    (more : List (Traffic F J)) : Answered (traffic ++ more) model := by
  obtain ⟨before, between, after, path, digest, nCtx, kv, actual, rfl⟩ := h
  refine ⟨before, between, after ++ more, path, digest, nCtx, kv, actual, ?_⟩
  simp only [List.append_assoc, List.cons_append]

/-- What works on no model can be added. -/
theorem namesResident_append {traffic more : List (Traffic F J)}
    (hidle : ∀ x ∈ more, x.worksOn = none) :
    NamesResident (traffic ++ more) ↔ NamesResident traffic := by
  refine eachAfter_append.trans (and_iff_left ?_)
  intro before x after happ model hmodel
  rw [hidle x (happ ▸ List.mem_append_right _ List.mem_cons_self)] at hmodel
  cases hmodel

theorem namesResident_sent {traffic : List (Traffic F J)} {request : BackendRequest F J} :
    NamesResident (traffic ++ [.sent request]) ↔
      NamesResident traffic ∧ ∀ model ∈ worksOn request, Answered traffic model := by
  refine eachAfter_append.trans (and_congr_right fun _ => ?_)
  rw [eachAfter_singleton, List.append_nil]
  rfl

/-! ### Loading -/

/-- Where `load` gets its answer, that is the last it heard. -/
theorem awaitLoaded_ok {name model path digest : Text} {nCtx : UInt32}
    {replies heard : List (BackendEvent F)} {answered : LoadedModel}
    (h : awaitLoaded name (.load model path digest nCtx) replies = (.ok answered, heard)) :
    answered.modelId = model ∧
      ∃ front kv actual, heard = front ++ [.loaded model kv actual] := by
  induction replies generalizing heard with
  | nil => simp [awaitLoaded] at h
  | cons event rest ih =>
    unfold awaitLoaded at h
    split at h
    · rename_i model' hreply
      simp only [Prod.mk.injEq, Except.ok.injEq] at h
      obtain ⟨rfl, rfl⟩ := h
      cases event with
      | loaded answeredId kv actual =>
        simp only [Op.reply] at hreply
        split at hreply
        · rename_i hsame
          simp only [Stage.inserting.injEq] at hreply
          subst hsame hreply
          exact ⟨rfl, [], kv, actual, rfl⟩
        · cases hreply
      | _ => cases hreply
    · simp at h
    · simp only [Prod.mk.injEq] at h
      obtain ⟨hresult, rfl⟩ := h
      obtain ⟨hid, front, kv, actual, hheard⟩ := ih (Prod.ext hresult rfl)
      exact ⟨hid, event :: front, kv, actual, congrArg (event :: ·) hheard⟩

variable {link : Link F J}

theorem Link.Known.append (h : link.Known) (more : List (Traffic F J)) :
    ({ link with traffic := link.traffic ++ more } : Link F J).Known := by
  intro model hmodel
  exact (h model hmodel).append more

/-- `load` sends no work, and a model it returns is loaded. -/
theorem load_spec (hknown : link.Known) (name model path digest : Text) (nCtx : UInt32)
    (answers : Answers F) :
    (link.load name model path digest nCtx answers).2.Known ∧
      (NamesResident (link.load name model path digest nCtx answers).2.traffic ↔
        NamesResident link.traffic) ∧
      ∀ loaded, (link.load name model path digest nCtx answers).1 = .ok loaded →
        Answered (link.load name model path digest nCtx answers).2.traffic model := by
  unfold Link.load
  cases hlookup : link.loaded.lookup model with
  | some existing =>
    refine ⟨hknown, Iff.rfl, ?_⟩
    intro loaded _
    exact hknown model (by rw [hlookup]; rfl)
  | none =>
    cases answers.written with
    | error e => exact ⟨hknown, Iff.rfl, fun loaded h => by simp at h⟩
    | ok =>
      have hidle : ∀ heard : List (BackendEvent F),
          ∀ x ∈ (.sent (.load model path digest nCtx) :: heard.map .heard : List (Traffic F J)),
          x.worksOn = none := by
        intro heard x hx
        rcases List.mem_cons.mp hx with rfl | hx
        · rfl
        · obtain ⟨event, -, rfl⟩ := List.mem_map.mp hx
          rfl
      simp only [Op.request]
      rcases hawait : awaitLoaded name (.load model path digest nCtx) answers.replies with
        ⟨e | answered, heard⟩
      · exact ⟨hknown.append _, namesResident_append (hidle heard), fun loaded h => by simp at h⟩
      · obtain ⟨hid, front, kv, actual, hheard⟩ := awaitLoaded_ok hawait
        have hanswered : Answered (link.traffic ++
            .sent (.load model path digest nCtx) :: heard.map .heard) model := by
          refine ⟨link.traffic, front.map .heard, [], path, digest, nCtx, kv, actual, ?_⟩
          rw [hheard, List.map_append, List.map_singleton]
        refine ⟨?_, namesResident_append (hidle heard), fun _ _ => hanswered⟩
        intro other hother
        by_cases hsame : other = model
        · rw [hsame]
          exact hanswered
        · rw [AList.lookup_insert_ne (hid ▸ hsame)] at hother
          exact (hknown other hother).append _

/-- A request is sent, if it can be written. -/
theorem start_spec (hknown : link.Known) (model : Text) {make : UInt64 → BackendRequest F J}
    (hmake : ∀ reqId, worksOn (make reqId) = some model) (refusal : Text → Text)
    (answers : Answers F) :
    (link.start make refusal answers).2.Known ∧
      (NamesResident (link.start make refusal answers).2.traffic ↔ NamesResident link.traffic ∧
        (answers.begun = .ok () → Answered link.traffic model)) := by
  unfold Link.start Link.begin
  cases answers.begun with
  | error e =>
    refine ⟨hknown, ?_⟩
    simp
  | ok =>
    refine ⟨hknown.append _, namesResident_sent.trans ?_⟩
    rw [hmake]
    simp

/-! ### The requests -/

section Steps

variable {asked : Asked R N F} {link : Link F (Grammar.Schema N)}

/-- What is to be shown of a request that loads its model is to be shown of what it does
    with the loaded model. -/
theorem loading_spec (hknown : link.Known) (name : Text)
    {next : LoadedModel → Link F (Grammar.Schema N) → Outcome × Link F (Grammar.Schema N)}
    (hnext : ∀ loaded last, last.Known → Answered last.traffic asked.model →
      (next loaded last).2.Known ∧
        (NamesResident (next loaded last).2.traffic ↔ NamesResident last.traffic)) :
    (asked.loading link name next).2.Known ∧
      (NamesResident (asked.loading link name next).2.traffic ↔ NamesResident link.traffic) := by
  obtain ⟨hlast, hsame, hloaded⟩ := load_spec hknown name asked.model asked.blob asked.digest
    asked.maxContext asked.answers
  rw [← hsame]
  unfold Asked.loading
  rcases hload : link.load name asked.model asked.blob asked.digest asked.maxContext
    asked.answers with ⟨e | loaded, last⟩
  · rw [hload] at hlast
    exact ⟨hlast, Iff.rfl⟩
  · rw [hload] at hlast hloaded
    exact hnext loaded last hlast (hloaded loaded rfl)

/-- The call of a turn whose load was answered so. -/
def Asked.answeredCall (asked : Asked R N F) (loaded : Loaded) : WholeTurn.Call R N F :=
  { asked.toCall with loaded := .ok loaded }

theorem prepare_of_ready {backend : Backend} {grammar : Option Text}
    (hready : asked.ready = .ok (backend, grammar)) (loaded : Loaded) :
    (asked.answeredCall loaded).prepare = .ok ⟨backend, grammar, loaded⟩ := by
  obtain ⟨_, hpolicy, h⟩ := bind_eq_ok.mp hready
  obtain ⟨_, hserves, h⟩ := bind_eq_ok.mp h
  obtain ⟨found, hbackend, h⟩ := bind_eq_ok.mp h
  obtain ⟨compiled, hgrammar, h⟩ := bind_eq_ok.mp h
  obtain ⟨rfl, rfl⟩ := Prod.mk.inj (Except.ok.inj h)
  refine bind_eq_ok.mpr ⟨(), hpolicy, bind_eq_ok.mpr ⟨(), hserves, ?_⟩⟩
  exact bind_eq_ok.mpr ⟨found, hbackend, bind_eq_ok.mpr ⟨compiled, hgrammar, rfl⟩⟩

/-- A turn that begins has passed the checks of a whole turn, and sends its request. -/
theorem turn_cleared {reqId : UInt64} {last : Link F (Grammar.Schema N)}
    (hturn : asked.turn link = (.begun reqId, last)) :
    ∃ t : Cleared R N F, t.call = asked.answeredCall t.prepared.loaded ∧
      ∃ before, last.traffic = before ++ [.sent (t.request reqId)] := by
  unfold Asked.turn at hturn
  split at hturn
  · simp at hturn
  · rename_i backend grammar hready
    unfold Asked.loading at hturn
    split at hturn
    · simp at hturn
    · rename_i loaded next hload
      dsimp only at hturn
      split at hturn
      · simp at hturn
      · rename_i hadmitted
        obtain ⟨reserve, hallowed, hrest⟩ := bind_eq_ok.mp hadmitted
        obtain ⟨_, -, hcarries⟩ := bind_eq_ok.mp hrest
        refine ⟨⟨⟨asked.answeredCall _, _, reserve, prepare_of_ready hready _, hallowed⟩,
          hcarries⟩, rfl, ?_⟩
        unfold Link.start Link.begin at hturn
        split at hturn
        · simp at hturn
        · rename_i _ _ id begun hbegin
          split at hbegin
          · simp at hbegin
          · simp only [Prod.mk.injEq, Except.ok.injEq, Outcome.begun.injEq] at hbegin hturn
            obtain ⟨rfl, rfl⟩ := hbegin
            obtain ⟨rfl, rfl⟩ := hturn
            exact ⟨next.traffic, rfl⟩

/-- A turn names a model that it has loaded. -/
theorem turn_spec (hknown : link.Known) :
    (asked.turn link).2.Known ∧
      (NamesResident (asked.turn link).2.traffic ↔ NamesResident link.traffic) := by
  unfold Asked.turn
  split
  · exact ⟨hknown, Iff.rfl⟩
  · apply loading_spec hknown
    intro loaded last hlast hanswered
    dsimp only
    split
    · exact ⟨hlast, Iff.rfl⟩
    · refine (start_spec hlast asked.model (fun _ => rfl) id asked.answers).imp_right ?_
      intro hsent
      exact hsent.trans (and_iff_left fun _ => hanswered)

theorem generateMedia_spec (hknown : link.Known) (kind : MediaKind) (prompt : Text)
    (params : Params F) (count : UInt32) :
    (asked.generateMedia link kind prompt params count).2.Known ∧
      (NamesResident (asked.generateMedia link kind prompt params count).2.traffic ↔
        NamesResident link.traffic) := by
  unfold Asked.generateMedia
  split
  · exact ⟨hknown, Iff.rfl⟩
  · split
    · exact ⟨hknown, Iff.rfl⟩
    · apply loading_spec hknown
      intro loaded last hlast hanswered
      dsimp only
      split
      · exact ⟨hlast, Iff.rfl⟩
      · refine (start_spec hlast asked.model (fun _ => rfl) id asked.answers).imp_right ?_
        intro hsent
        exact hsent.trans (and_iff_left fun _ => hanswered)

/-- An embedding names a model that may never have been loaded. -/
theorem embed_spec (hknown : link.Known) (inputs : List Text) :
    (asked.embed link inputs).2.Known ∧
      (NamesResident (asked.embed link inputs).2.traffic ↔
        NamesResident link.traffic ∧ NamesLoaded link (.embed asked inputs)) := by
  unfold Asked.embed
  split
  · rename_i body hrefused
    refine ⟨hknown, (and_iff_left ?_).symm⟩
    intro hready
    rw [hrefused] at hready
    cases hready
  · rename_i hready
    refine (start_spec hknown asked.model (fun _ => rfl) _ asked.answers).imp_right fun hsent =>
      hsent.trans ?_
    exact and_congr_right fun _ => ⟨fun h _ => h, fun h => h hready⟩

theorem tokenize_spec (hknown : link.Known) (text : Text) :
    (asked.tokenize link text).2.Known ∧
      (NamesResident (asked.tokenize link text).2.traffic ↔
        NamesResident link.traffic ∧ NamesLoaded link (.tokenize asked text)) := by
  unfold Asked.tokenize
  split
  · rename_i body hrefused
    refine ⟨hknown, (and_iff_left ?_).symm⟩
    intro hready
    rw [hrefused] at hready
    cases hready
  · rename_i hready
    refine (start_spec hknown asked.model (fun _ => rfl) _ asked.answers).imp_right fun hsent =>
      hsent.trans ?_
    exact and_congr_right fun _ => ⟨fun h _ => h, fun h => h hready⟩

/-- A step adds a request for a model that is not loaded where its condition is not met,
    and nowhere else. -/
theorem linkStep_spec (hknown : link.Known) {doing : Doing R N F}
    {next : Link F (Grammar.Schema N)} (hstep : linkStep link doing = some next) :
    next.Known ∧
      (NamesResident next.traffic ↔ NamesResident link.traffic ∧ NamesLoaded link doing) := by
  cases doing with
  | turn asked =>
    obtain rfl := Option.some.inj hstep
    exact (turn_spec hknown).imp_right fun h => h.trans (and_iff_left trivial).symm
  | generateMedia asked kind prompt params count =>
    obtain rfl := Option.some.inj hstep
    exact (generateMedia_spec hknown kind prompt params count).imp_right fun h =>
      h.trans (and_iff_left trivial).symm
  | embed asked inputs =>
    obtain rfl := Option.some.inj hstep
    exact embed_spec hknown inputs
  | tokenize asked text =>
    obtain rfl := Option.some.inj hstep
    exact tokenize_spec hknown text
  | pin name model blob digest nCtx answers =>
    obtain rfl := Option.some.inj hstep
    obtain ⟨hnext, hsame, -⟩ := load_spec hknown name model blob digest nCtx answers
    exact ⟨hnext, hsame.trans (and_iff_left trivial).symm⟩

end Steps

/-! ### Runs -/

theorem runs_total (link : Link F (Grammar.Schema N)) (doings : List (Doing R N F)) :
    ∃ last, runs linkStep link doings = some last := by
  induction doings generalizing link with
  | nil => exact ⟨link, rfl⟩
  | cons doing doings ih => cases doing <;> exact ih _

theorem namesResident_runs {link last : Link F (Grammar.Schema N)} {doings : List (Doing R N F)}
    (hknown : link.Known) (hrun : runs linkStep link doings = some last) :
    last.Known ∧ (NamesResident last.traffic ↔
      NamesResident link.traffic ∧ along linkStep NamesLoaded link doings) := by
  induction doings generalizing link with
  | nil =>
    obtain rfl := Option.some.inj hrun
    exact ⟨hknown, (and_iff_left trivial).symm⟩
  | cons doing doings ih =>
    cases hstep : linkStep link doing with
    | none => simp [runs, hstep] at hrun
    | some next =>
      simp only [runs, hstep] at hrun
      obtain ⟨hnext, hone⟩ := linkStep_spec hknown hstep
      obtain ⟨hlast, hrest⟩ := ih hnext hrun
      refine ⟨hlast, hrest.trans ?_⟩
      rw [hone, and_assoc]
      simp only [along, hstep]

theorem spawned_known : (spawned : Link F J).Known := by
  intro model hmodel
  simp [spawned] at hmodel

/-- A client that only embeds, on a backend and a model that do. -/
def embedding : Asked ℚ Empty Nat where
  toCall := plainCall ["embed".toList] [] 16
  blob := "/var/lib/ai-daemon/blobs/e".toList
  digest := "e".toList
  maxPerSession := 16
  kv := .ok ()
  answers := ⟨.ok (), [], .ok ()⟩

end AiDaemon.Residency
