import AiDaemon.CreateSession
import AiDaemon.Fallible
import AiDaemon.LiveBackends
import AiDaemon.Registry

/-!
# What a model serves (`install.rs`: `servable`, `state.rs`: `Backends::for_manifest`)

Installing asks for each capability of a manifest whether some backend serves it;
a session asks once, for `generate`, and keeps of the manifest's capabilities
what the backend it gets can do.  Here every configured backend starts.

The two agree if the backend that a session gets can do all the manifest claims
(`served_iff`).  Where one backend generates and another embeds, a model that
claims both is installed, and its sessions do not embed
(`servable_not_served`).
-/

namespace AiDaemon.Serving

open Fallible Policy Registry

/-! ### The source -/

/-- A configured backend, with what it says when it starts. -/
structure Backend where
  name : Text
  connect : Option Text
  formats : List Text
  capabilities : List Text
  isLocal : Bool
deriving DecidableEq, Repr

def Backend.can (backend : Backend) (capability : Text) : Bool :=
  backend.capabilities.any fun c => c = capability

/-- `eq_ignore_ascii_case` -/
def eqIgnoreCase (a b : Text) : Bool := a.map Char.toLower = b.map Char.toLower

def Backend.handlesFormat (backend : Backend) (format : Text) : Bool :=
  backend.formats.any fun f => eqIgnoreCase f format

/-- The enabled backends, and the characters that `Debug` escapes. -/
structure Backends where
  specs : List Backend
  isEscaped : Char → Bool

/-- `Debug` of a list of strings. -/
def quotedList (isEscaped : Char → Bool) (texts : List Text) : Text :=
  '[' :: [',', ' '].intercalate (texts.map (Turn.quoted isEscaped)) ++ [']']

def Backends.get (backends : Backends) (name : Text) : Except Text Backend :=
  match backends.specs.find? fun spec => spec.name = name with
  | some spec => .ok spec
  | none => .error (LiveBackends.notConfiguredText backends.isEscaped name)

/-- The configured remote provider, by name or the first one there is. -/
def Backends.remoteProvider (backends : Backends) (named : Text) : Option Text :=
  (backends.specs.find? fun spec => (named = [] ∨ spec.name = named) ∧ spec.connect.isSome).map
    Backend.name

def cannotText (name capability : Text) : Text :=
  "backend ".toList ++ name ++ " cannot ".toList ++ capability

def handlesText (isEscaped : Char → Bool) (name : Text) (backend : Backend) : Text :=
  "backend ".toList ++ name ++ " handles ".toList ++ quotedList isEscaped backend.formats ++
    " and can ".toList ++ quotedList isEscaped backend.capabilities

def noneReadsText (format capability lastError : Text) : Text :=
  "no backend reads ".toList ++ format ++ " with capability ".toList ++ capability ++
    " (".toList ++ lastError ++ ")".toList

/-- The first of some backends that reads the format and has the capability. -/
def Backends.firstFor (backends : Backends) (format capability : Text) :
    List Backend → Text → Except Text Backend
  | [], lastError => .error (noneReadsText format capability lastError)
  | spec :: specs, _ =>
    match backends.get spec.name with
    | .ok backend =>
      if backend.handlesFormat format ∧ backend.can capability then .ok backend
      else backends.firstFor format capability specs
        (handlesText backends.isEscaped spec.name backend)
    | .error e => backends.firstFor format capability specs e

/-- `for_manifest` -/
def Backends.forManifest (backends : Backends) (manifest : Registry.Manifest)
    (capability : Text) : Except Text Backend :=
  if manifest.backend ≠ [] then
    match backends.get manifest.backend with
    | .error e => .error e
    | .ok backend =>
      if ¬ backend.can capability then .error (cannotText manifest.backend capability)
      else .ok backend
  else
    backends.firstFor manifest.format capability backends.specs "no backend is configured".toList

/-- `POLICY_ONLY` -/
def policyOnly : List (Text × Text) :=
  [("generate-tools".toList, "tools".toList),
    ("generate-media".toList, "image-out` or `audio-out".toList)]

def policyOnlyText (isEscaped : Char → Bool) (capability modelWord : Text) : Text :=
  Turn.quoted isEscaped capability ++
    " is a policy capability, not a model capability. Policy capabilities are what ".toList ++
    "`aidctl grant` takes and describe what an *identity* may ask for; `--capability` ".toList ++
    "describes what a *model* is, and for this one the word is `".toList ++ modelWord ++ "`.".toList

def notServedText (isEscaped : Char → Bool) (manifest : Registry.Manifest) (capability e : Text) :
    Text :=
  manifest.name ++ " was declared ".toList ++ Turn.quoted isEscaped capability ++
    " and no configured backend serves that for a ".toList ++ manifest.format ++
    " model (".toList ++
    e ++ "). Install it without that capability, or configure a backend that has it.".toList

/-- One capability in `servable`. -/
def servableOne (backends : Backends) (manifest : Registry.Manifest) (capability : Text) :
    Except Text Unit :=
  match policyOnly.find? fun pair => pair.1 = capability with
  | some (_, modelWord) => .error (policyOnlyText backends.isEscaped capability modelWord)
  | none =>
    match backends.forManifest manifest capability with
    | .error e => .error (notServedText backends.isEscaped manifest capability e)
    | .ok _ => .ok ()

def servable (backends : Backends) (manifest : Registry.Manifest) : Except Text Unit :=
  manifest.capabilities.forM (servableOne backends manifest)

/-! ### In a session -/

/-- What `create_session` reads of a manifest and of a backend. -/
def opened (manifest : Registry.Manifest) : AiDaemon.Manifest :=
  ⟨manifest.name, manifest.digest, manifest.capabilities, manifest.requirements.maxCtx⟩

def Backend.info (backend : Backend) : AiDaemon.Backend :=
  ⟨backend.name, backend.capabilities, backend.isLocal⟩

def doesNotOfferText (model capability claimed : Text) : Text :=
  "model ".toList ++ model ++ " does not offer ".toList ++ capability ++ " (it offers: ".toList ++
    claimed ++ "). If it should, an administrator can reinstall it with ".toList ++
    "`aidctl install --capability ".toList ++ capability ++
    "`; otherwise ask for a model that does.".toList

/-- `model_serves` -/
def modelServes (session : Session) (capability : Text) : Except Text Unit :=
  if session.capabilities.any fun c => c = capability then .ok ()
  else
    let claimed := if session.capabilities = [] then "nothing".toList
      else [',', ' '].intercalate session.capabilities
    .error (doesNotOfferText session.model capability claimed)

/-- A session finds a backend, and serves what the manifest claims and the backend can
    do, and nothing else; the rest of the `opening` and the `id` are as they may be. -/
def Served (backends : Backends) (manifest : Registry.Manifest) (opening : Opening) (id : Text) :
    Prop :=
  ∃ backend, backends.forManifest manifest generate = .ok backend ∧
    let session := sessionOf { opening with manifest := opened manifest } backend.info id
    ∀ capability, (modelServes session capability = .ok () ↔ manifest.serves capability) ∧
      (manifest.serves capability → backend.can capability)

/-! ### One backend for all -/

variable {backends : Backends} {manifest : Registry.Manifest}

/-- What the configured names stand for, in their order. -/
def Backends.standing (backends : Backends) (specs : List Backend) : List Backend :=
  specs.filterMap fun spec => (backends.get spec.name).toOption

/-- The manifest claims something, and the backend it names can generate; or it names
    none, and the first that reads the format and generates can do all it claims. -/
def OneForAll (backends : Backends) (manifest : Registry.Manifest) : Prop :=
  manifest.capabilities ≠ [] ∧
    if manifest.backend ≠ [] then
      ∃ backend ∈ backends.specs.find? fun spec => spec.name = manifest.backend,
        backend.can generate
    else
      ∃ backend ∈ (backends.standing backends.specs).find? fun backend =>
          backend.handlesFormat manifest.format ∧ backend.can generate,
        ∀ capability ∈ manifest.capabilities, backend.can capability

theorem get_eq_ok {name : Text} {backend : Backend} :
    backends.get name = .ok backend ↔
      backends.specs.find? (fun spec => spec.name = name) = some backend := by
  rw [Backends.get]
  cases backends.specs.find? fun spec => spec.name = name with
  | some spec =>
    exact ⟨fun h => congrArg some (Except.ok.inj h), fun h => congrArg _ (Option.some.inj h)⟩
  | none => exact ⟨fun h => (nomatch h), fun h => (nomatch h)⟩

theorem firstFor_eq_ok {format capability : Text} {specs : List Backend} {lastError : Text}
    {backend : Backend} :
    backends.firstFor format capability specs lastError = .ok backend ↔
      (backends.standing specs).find? (fun backend =>
        backend.handlesFormat format ∧ backend.can capability) = some backend := by
  induction specs generalizing lastError with
  | nil => exact ⟨fun h => (nomatch h), fun h => (nomatch h)⟩
  | cons spec specs ih =>
    rw [Backends.firstFor, Backends.standing, List.filterMap_cons]
    cases hget : backends.get spec.name with
    | error e =>
      dsimp only [Except.toOption]
      exact ih
    | ok found =>
      dsimp only [Except.toOption]
      rw [List.find?_cons]
      by_cases hserves : found.handlesFormat format ∧ found.can capability
      · rw [if_pos hserves, decide_eq_true hserves]
        exact ⟨fun h => congrArg some (Except.ok.inj h), fun h => congrArg _ (Option.some.inj h)⟩
      · rw [if_neg hserves, decide_eq_false hserves]
        exact ih

/-- The backend a manifest names, and what it can do. -/
theorem forManifest_named {capability : Text} {backend : Backend} (h : manifest.backend ≠ []) :
    backends.forManifest manifest capability = .ok backend ↔
      backends.get manifest.backend = .ok backend ∧ backend.can capability := by
  rw [Backends.forManifest, if_pos h]
  cases backends.get manifest.backend with
  | error e => exact ⟨fun h => (nomatch h), fun h => (nomatch h.1)⟩
  | ok found =>
    dsimp only
    by_cases hcan : found.can capability
    · rw [if_neg (not_not.mpr hcan)]
      constructor
      · rintro ⟨⟩
        exact ⟨rfl, hcan⟩
      · exact fun h => h.1
    · rw [if_pos hcan]
      constructor
      · intro h
        cases h
      · rintro ⟨⟨⟩, h⟩
        exact absurd h hcan

theorem forManifest_first {capability : Text} {backend : Backend} (h : ¬ manifest.backend ≠ []) :
    backends.forManifest manifest capability = .ok backend ↔
      (backends.standing backends.specs).find? (fun backend =>
        backend.handlesFormat manifest.format ∧ backend.can capability) = some backend := by
  rw [Backends.forManifest, if_neg h, firstFor_eq_ok]

theorem servable_finds (h : servable backends manifest = .ok ()) :
    ∀ capability ∈ manifest.capabilities, ∃ backend,
      backends.forManifest manifest capability = .ok backend := by
  intro capability hmem
  have hone := forM_eq_ok h capability hmem
  rw [servableOne] at hone
  split at hone
  · cases hone
  · split at hone
    · cases hone
    · next backend hfound => exact ⟨backend, hfound⟩

theorem modelServes_iff {session : Session} {capability : Text} :
    modelServes session capability = .ok () ↔ capability ∈ session.capabilities := by
  rw [modelServes]
  split
  · next hany =>
    obtain ⟨c, hmem, heq⟩ := List.any_eq_true.mp hany
    rw [of_decide_eq_true heq] at hmem
    exact ⟨fun _ => hmem, fun _ => rfl⟩
  · next hnone =>
    constructor
    · intro h
      cases h
    · intro hmem
      exact absurd (List.any_eq_true.mpr ⟨capability, hmem, decide_eq_true rfl⟩) hnone

theorem serves_iff (hclaims : manifest.capabilities ≠ []) {capability : Text} :
    manifest.serves capability ↔ capability ∈ manifest.capabilities := by
  rw [Registry.Manifest.serves, if_neg hclaims, List.any_eq_true]
  constructor
  · rintro ⟨c, hmem, heq⟩
    rwa [of_decide_eq_true heq] at hmem
  · intro hmem
    exact ⟨capability, hmem, decide_eq_true rfl⟩

/-- Once a session has its backend, it is for that to do all the manifest claims. -/
theorem session_serves_iff (opening : Opening) (id : Text) (backend : Backend) :
    (∀ capability,
      (modelServes (sessionOf { opening with manifest := opened manifest } backend.info id)
          capability = .ok () ↔ manifest.serves capability) ∧
        (manifest.serves capability → backend.can capability)) ↔
      manifest.capabilities ≠ [] ∧ ∀ capability ∈ manifest.capabilities,
        backend.can capability := by
  have hsession : ∀ capability,
      modelServes (sessionOf { opening with manifest := opened manifest } backend.info id)
          capability = .ok () ↔
        capability ∈ manifest.capabilities ∧ backend.can capability := by
    intro capability
    rw [modelServes_iff]
    exact List.mem_filter
  constructor
  · intro h
    have hclaims : manifest.capabilities ≠ [] := by
      intro hnil
      have hgenerate : manifest.serves generate := by
        rw [Registry.Manifest.serves, if_pos hnil]
        exact decide_eq_true rfl
      have hmem := ((hsession generate).mp ((h generate).1.mpr hgenerate)).1
      rw [hnil] at hmem
      cases hmem
    exact ⟨hclaims, fun capability hmem => (h capability).2 ((serves_iff hclaims).mpr hmem)⟩
  · rintro ⟨hclaims, hcan⟩ capability
    rw [hsession, serves_iff hclaims]
    exact ⟨⟨fun h => h.1, fun h => ⟨h, hcan capability h⟩⟩, hcan capability⟩

/-- **A model that may be installed is served** in its sessions exactly if one backend
    is the one they get and can do all it claims. -/
theorem served_iff (h : servable backends manifest = .ok ()) (opening : Opening) (id : Text) :
    Served backends manifest opening id ↔ OneForAll backends manifest := by
  have hserved : Served backends manifest opening id ↔
      ∃ backend, backends.forManifest manifest generate = .ok backend ∧
        manifest.capabilities ≠ [] ∧ ∀ c ∈ manifest.capabilities, backend.can c := by
    apply exists_congr
    intro backend
    exact and_congr_right fun _ => session_serves_iff opening id backend
  rw [hserved, OneForAll]
  by_cases hnamed : manifest.backend ≠ []
  · rw [if_pos hnamed]
    constructor
    · rintro ⟨backend, hfound, hclaims, -⟩
      obtain ⟨hget, hcan⟩ := (forManifest_named hnamed).mp hfound
      exact ⟨hclaims, backend, get_eq_ok.mp hget, hcan⟩
    · rintro ⟨hclaims, backend, hfind, hcan⟩
      have hget := get_eq_ok.mpr hfind
      refine ⟨backend, (forManifest_named hnamed).mpr ⟨hget, hcan⟩, hclaims, fun c hc => ?_⟩
      obtain ⟨other, hother⟩ := servable_finds h c hc
      obtain ⟨hsame, hcan⟩ := (forManifest_named hnamed).mp hother
      rw [hget] at hsame
      cases hsame
      exact hcan
  · rw [if_neg hnamed]
    constructor
    · rintro ⟨backend, hfound, hclaims, hall⟩
      exact ⟨hclaims, backend, (forManifest_first hnamed).mp hfound, hall⟩
    · rintro ⟨hclaims, backend, hfind, hall⟩
      exact ⟨backend, (forManifest_first hnamed).mpr hfind, hclaims, hall⟩

/-! ### Two backends -/

def embed : Text := "embed".toList

/-- A local backend that reads one format. -/
def ggufBackend (name : Text) (capabilities : List Text) : Backend :=
  ⟨name, none, [gguf], capabilities, true⟩

/-- A model that generates and embeds, on whichever backend. -/
def bothWays : Registry.Manifest :=
  ⟨"small".toList, [], gguf, [], [], .none, [], [generate, embed], []⟩

def editorOpening : Opening :=
  ⟨(editorSession "s1").identity, limitsFor openConfig (editorSession "s1").identity, .interactive,
    131072, opened bothWays⟩

/-- One backend for both. -/
theorem served_by_one : Served ⟨[ggufBackend "llama".toList [generate, embed]], fun _ => false⟩
    bothWays editorOpening "s1".toList := by
  refine (served_iff (by decide) editorOpening "s1".toList).mpr ⟨by decide, ?_⟩
  rw [if_neg (by decide)]
  exact ⟨ggufBackend "llama".toList [generate, embed], by decide, by decide⟩

/-- The first backend generates and the second embeds: the model is installed, and its
    sessions refuse to embed. -/
theorem servable_not_served :
    let backends : Backends :=
      ⟨[ggufBackend "llama".toList [generate], ggufBackend "bert".toList [embed]], fun _ => false⟩
    servable backends bothWays = .ok () ∧
      ¬ Served backends bothWays editorOpening "s1".toList := by
  refine ⟨by decide, ?_⟩
  rintro ⟨backend, hfound, hserves⟩
  have hfirst := (forManifest_first (by decide)).mp hfound
  have hllama : backend = ggufBackend "llama".toList [generate] := by
    refine Option.some.inj (hfirst.symm.trans ?_)
    decide
  have hembed := ((session_serves_iff editorOpening "s1".toList backend).mp hserves).2 embed
    (by decide)
  rw [hllama] at hembed
  exact absurd hembed (by decide)

end AiDaemon.Serving
