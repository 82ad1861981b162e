import AiDaemon.Serving

/-!
# Installing a model (`install.rs`)

The fetch helper has a network and is not trusted: it writes into the staging
directory and says where.  What the daemon then opens, hashes, renames and
deletes on account of that report is part of the result here (`Effect`).

The path in a report is asked to begin with the staging directory only at the
end, in `accept_staged`.  Before that the daemon opens the file for its magic, and
deletes it if the magic is wrong or no backend serves the model
(`install_deletes_outside`); and a path that begins with the staging directory may
leave it with dots.  What a report must say for everything to stay inside is
`install_inside_iff`.
-/

namespace AiDaemon.Install

open Ledger Registry Serving UnixPath

/-! ### The source -/

structure FetchReport where
  ok : Bool
  error : Text
  path : Text
  bytes : Nat
  digest : Text
deriving DecidableEq, Repr

structure Options where
  maxCtx : Option Nat
  format : Option Text
  backend : Option Text
  license : Option Text
  capabilities : Option (List Text)
deriving DecidableEq, Repr

/-- What is done to a file, at the path it is done by. -/
inductive Effect where
  | opened (path : Text)
  | hashed (path : Text)
  | deleted (path : Text)
  | renamed (path onto : Text)
  /-- A manifest is written, by way of a temporary file beside it. -/
  | recorded (path : Text)
deriving DecidableEq, Repr

/-- What the file system answers, and what the helper does and reports. -/
structure Answers where
  createStaging : Except Text Unit
  dropOld : Except Text Unit
  helperExists : Bool
  fetch : Store → Store × Except Text FetchReport
  magic : Except Text Unit
  drop : Except Text Unit
  accept : Faults

structure Daemon where
  env : Env
  libexecDir : Text
  backends : Backends

def isNameChar (c : Char) : Bool :=
  c.isDigit || ('a' ≤ c && c ≤ 'z') || ('A' ≤ c && c ≤ 'Z') || c = '-' || c = '_' || c = '.'

/-- What `install` asks of a name. -/
def usableName (name : Text) : Bool := name ≠ [] && name.all isNameChar && name.head? ≠ some '.'

def candidates : List Text :=
  ["q4_k_m".toList, "q4_k_s".toList, "q5_k_m".toList, "q6_k".toList, "q8_0".toList, "f16".toList,
    "bf16".toList, "f32".toList]

def guessQuantization (source : Text) : Text :=
  let lower := source.map Char.toLower
  (candidates.find? fun candidate => lower.tails.any candidate.isPrefixOf).getD []

/-- `magic`: the first four bytes. -/
def magic (answer : Except Text Unit) : Option (List UInt8) → Except Text (List UInt8)
  | none => .error noFileText
  | some bytes =>
    match answer with
    | .error e => .error e
    | .ok () =>
      if bytes.length < 4 then .error "failed to fill whole buffer".toList else .ok (bytes.take 4)

def ggufMagic : List UInt8 := [0x47, 0x47, 0x55, 0x46]

def notUsableText (isEscaped : Char → Bool) (name : Text) : Text :=
  Turn.quoted isEscaped name ++ " is not usable as a model name".toList

def notUsableRemoteText (isEscaped : Char → Bool) (name : Text) : Text :=
  Turn.quoted isEscaped name ++ " is not usable as a remote model identifier".toList

def remoteFormatText (isEscaped : Char → Bool) (format : Text) : Text :=
  "a remote: source is format ".toList ++ Turn.quoted isEscaped remoteFormat ++ ", not ".toList ++
    Turn.quoted isEscaped format

def noProviderText (isEscaped : Char → Bool) (asked : Text) : Text :=
  if asked = [] then
    "no remote provider is configured; a remote: model needs a backend with a connect ".toList ++
      "socket (see /etc/ai-daemon/remote.toml)".toList
  else
    "backend ".toList ++ Turn.quoted isEscaped asked ++
    " is not a configured remote provider".toList

def digestRequiredText : Text :=
  "a sha256 digest is required; installing unverified weights is not offered".toList

def fetchFailedText (error : Text) : Text :=
  if error = [] then "the fetch helper failed without saying why".toList else error

def notGgufText (name : Text) : Text :=
  name ++ " was declared gguf but does not start with the GGUF magic".toList

def remoteColon : Text := "remote:".toList

def remoteManifest (endpointModel name serving : Text) (options : Options) : Registry.Manifest where
  name := name
  digest := remoteColon ++ endpointModel
  format := remoteFormat
  quantization := []
  license := options.license.getD []
  requirements := ⟨0, 0, options.maxCtx.getD 0, options.maxCtx.getD 0⟩
  backend := serving
  capabilities := options.capabilities.getD [generate]
  source := remoteColon ++ endpointModel

/-- `install_remote` -/
def installRemote (daemon : Daemon) (answers : Answers) (st : Store)
    (endpointModel name : Text) (options : Options) : Store × Except Text Text :=
  let isEscaped := daemon.env.isEscaped
  if endpointModel = [] ∨ ¬ endpointModel.all (fun c => isNameChar c || c = '/' || c = ':') then
    (st, .error (notUsableRemoteText isEscaped endpointModel))
  else
    match options.format.filter fun format => format ≠ remoteFormat with
    | some format => (st, .error (remoteFormatText isEscaped format))
    | none =>
      match daemon.backends.remoteProvider (options.backend.getD []) with
      | none => (st, .error (noProviderText isEscaped (options.backend.getD [])))
      | some serving =>
        let manifest := remoteManifest endpointModel name serving options
        match servable daemon.backends manifest with
        | .error e => (st, .error e)
        | .ok () =>
          match registerRemote daemon.env answers.accept st manifest with
          | (st, .ok manifest) => (st, .ok manifest.name)
          | (st, .error e) => (st, .error e)

/-- What `accept_staged` does to files. -/
def acceptEffects (env : Env) (io : Faults) (st : Store) (staged : Text)
    (manifest : Registry.Manifest) (expected : Text) : List Effect :=
  if ¬ startsWith staged env.stagingDir then []
  else
    match st.bytesAt env staged, io.hash with
    | some bytes, .ok () =>
      if env.digestOf bytes ≠ expected then [.hashed staged, .deleted staged]
      else
        match io.metadata, hexOf env.isEscaped (env.digestOf bytes) with
        | .ok (), .ok hex =>
          if hex ∈ st.blobs then
            [.hashed staged, .deleted staged, .recorded (env.manifestPath manifest.name)]
          else
            .hashed staged :: .renamed staged (join env.blobsDir hex) ::
              if works io.rename then [.recorded (env.manifestPath manifest.name)] else []
        | _, _ => [.hashed staged]
    | _, _ => [.hashed staged]

/-- The manifest of what has been fetched. -/
def fetchedManifest (source digest name : Text) (options : Options) (report : FetchReport) :
    Registry.Manifest where
  name := name
  digest := digest
  format := options.format.getD gguf
  quantization := guessQuantization source
  license := options.license.getD []
  requirements := ⟨report.bytes, 0, options.maxCtx.getD 0, options.maxCtx.getD 0⟩
  backend := options.backend.getD []
  capabilities := options.capabilities.getD [generate]
  source := source

/-- The end of `install`: the model is served by some backend, and is accepted. -/
def acceptServable (daemon : Daemon) (answers : Answers) (st : Store) (landed digest : Text)
    (manifest : Registry.Manifest) : List Effect × Store × Except Text Text :=
  match servable daemon.backends manifest with
  | .error e => ([.deleted landed], st.removeFile daemon.env answers.drop landed, .error e)
  | .ok () =>
    (acceptEffects daemon.env answers.accept st landed manifest digest,
      match acceptStaged daemon.env answers.accept st landed manifest digest with
      | (st, .ok installed) => (st, .ok installed.name)
      | (st, .error e) => (st, .error e))

/-- Where the helper says the file is. -/
def landedAt (target : Text) (report : FetchReport) : Text :=
  if report.path = [] then target else report.path

/-- `install` from the report on, with what it does on account of it. -/
def onReport (daemon : Daemon) (answers : Answers) (st : Store) (source digest name : Text)
    (options : Options) (target : Text) (report : FetchReport) :
    List Effect × Store × Except Text Text :=
  if ¬ report.ok then
    ([.deleted target], st.removeFile daemon.env answers.drop target,
      .error (fetchFailedText report.error))
  else
    let landed := landedAt target report
    let manifest := fetchedManifest source digest name options report
    if manifest.format = gguf then
      match magic answers.magic (st.bytesAt daemon.env landed) with
      | .error e =>
        ([.opened landed], st, .error ("reading ".toList ++ landed ++ ": ".toList ++ e))
      | .ok found =>
        if found = ggufMagic then
          let (effects, outcome) := acceptServable daemon answers st landed digest manifest
          (.opened landed :: effects, outcome)
        else
          ([.opened landed, .deleted landed], st.removeFile daemon.env answers.drop landed,
            .error (notGgufText name))
    else acceptServable daemon answers st landed digest manifest

def part : Text := ".part".toList

def targetOf (env : Env) (name : Text) : Text := join env.stagingDir (name ++ part)

/-- The helper's report, if `install` gets so far. -/
def fetched (daemon : Daemon) (answers : Answers) (st : Store) (name : Text) :
    Store × Except Text FetchReport :=
  match answers.createStaging with
  | .error e => (st, .error ("staging directory: ".toList ++ e))
  | .ok () =>
    let st := st.removeFile daemon.env answers.dropOld (targetOf daemon.env name)
    if ¬ answers.helperExists then
      (st, .error (join daemon.libexecDir "ai-daemon-fetch".toList ++ " is not installed".toList))
    else answers.fetch st

/-- `install`, with what it does to files on account of the helper's report. -/
def install (daemon : Daemon) (answers : Answers) (st : Store) (source digest name : Text)
    (options : Options) : List Effect × Store × Except Text Text :=
  if ¬ usableName name then ([], st, .error (notUsableText daemon.env.isEscaped name))
  else
    match remoteColon.isPrefixOf? source with
    | some endpointModel => ([], installRemote daemon answers st endpointModel name options)
    | none =>
      if ¬ sha256.isPrefixOf digest then ([], st, .error digestRequiredText)
      else
        match fetched daemon answers st name with
        | (st, .error e) => ([], st, .error e)
        | (st, .ok report) =>
          onReport daemon answers st source digest name options (targetOf daemon.env name) report

/-! ### What lies inside -/

/-- The files that are opened, hashed, renamed or deleted. -/
def Effect.file : Effect → Option Text
  | .opened path | .hashed path | .deleted path | .renamed path _ => some path
  | .recorded _ => none

/-- The files that are made. -/
def Effect.made : Effect → Option Text
  | .renamed _ onto => some onto
  | .recorded path => some path
  | _ => none

/-- Somewhere below the staging directory. -/
def Staged (env : Env) (path : Text) : Prop :=
  Below (resolve env.cwd env.stagingDir) (resolve env.cwd path)

/-- Everything stays in the staging directory, but for the weights with the digest that
    was asked for and the manifest with the name. -/
def Inside (env : Env) (digest name : Text) (effects : List Effect) : Prop :=
  ∀ effect ∈ effects, (∀ path ∈ effect.file, Staged env path) ∧
    ∀ path ∈ effect.made,
      (∃ hex, digest = sha256 ++ hex ∧ path = join env.blobsDir hex) ∨ path = env.manifestPath name

variable {env : Env} {st : Store} {io : Faults}

theorem isNameChar_ne_slash {c : Char} (h : isNameChar c) : c ≠ '/' := by
  rintro rfl
  exact absurd h (by decide)

/-- The daemon's own target is in the staging directory. -/
theorem target_staged {name : Text} (h : usableName name) : Staged env (targetOf env name) := by
  rw [usableName, Bool.and_eq_true, Bool.and_eq_true] at h
  have hall := List.all_eq_true.mp h.1.2
  have hlength : 5 ≤ (name ++ part).length := by
    rw [List.length_append, show part.length = 5 from by decide]
    exact Nat.le_add_left 5 _
  have hplain : Plain (name ++ part) := by
    refine ⟨?_, ?_, ?_, ?_⟩
    · rw [List.mem_append, not_or]
      exact ⟨fun hmem => isNameChar_ne_slash (hall _ hmem) rfl, by decide⟩
    all_goals
      intro heq
      rw [heq] at hlength
      exact absurd hlength (by decide)
  rw [Staged, targetOf, resolve_join, resolve_plain _ hplain]
  exact below_append _ _

/-- One path is all the files there are, and what is made is what was asked for. -/
structure Only (env : Env) (digest name path : Text) (effects : List Effect) : Prop where
  file : ∀ effect ∈ effects, ∀ file ∈ effect.file, file = path
  made : ∀ effect ∈ effects, ∀ made ∈ effect.made,
    (∃ hex, digest = sha256 ++ hex ∧ made = join env.blobsDir hex) ∨ made = env.manifestPath name

theorem Only.inside_iff {digest name path : Text} {effects : List Effect}
    (h : Only env digest name path effects) :
    Inside env digest name effects ↔
      ((∃ effect ∈ effects, effect.file = some path) → Staged env path) := by
  constructor
  · rintro hinside ⟨effect, hmem, hfile⟩
    exact (hinside effect hmem).1 path hfile
  · intro hstaged effect hmem
    refine ⟨fun file hfile => ?_, h.made effect hmem⟩
    have hsame := h.file effect hmem file hfile
    subst hsame
    exact hstaged ⟨effect, hmem, hfile⟩

theorem Only.cons {digest name path : Text} {effects : List Effect} (effect : Effect)
    (hfile : ∀ file ∈ effect.file, file = path)
    (hmade : ∀ made ∈ effect.made,
      (∃ hex, digest = sha256 ++ hex ∧ made = join env.blobsDir hex) ∨ made = env.manifestPath name)
    (h : Only env digest name path effects) : Only env digest name path (effect :: effects) where
  file other hmem file hother := by
    rcases List.mem_cons.mp hmem with rfl | hmem
    · exact hfile file hother
    · exact h.file other hmem file hother
  made other hmem made hother := by
    rcases List.mem_cons.mp hmem with rfl | hmem
    · exact hmade made hother
    · exact h.made other hmem made hother

theorem Only.nil {digest name path : Text} : Only env digest name path [] where
  file effect hmem := by cases hmem
  made effect hmem := by cases hmem

section

variable {digest name path : Text} {effects : List Effect} (h : Only env digest name path effects)
include h

theorem Only.opened : Only env digest name path (.opened path :: effects) :=
  h.cons (.opened path) (fun _ hfile => (Option.some.inj hfile).symm) fun _ hmade => nomatch hmade

theorem Only.hashed : Only env digest name path (.hashed path :: effects) :=
  h.cons (.hashed path) (fun _ hfile => (Option.some.inj hfile).symm) fun _ hmade => nomatch hmade

theorem Only.deleted : Only env digest name path (.deleted path :: effects) :=
  h.cons (.deleted path) (fun _ hfile => (Option.some.inj hfile).symm) fun _ hmade => nomatch hmade

theorem Only.renamed {hex : Text} (hdigest : digest = sha256 ++ hex) :
    Only env digest name path (.renamed path (join env.blobsDir hex) :: effects) :=
  h.cons (.renamed path (join env.blobsDir hex)) (fun _ hfile => (Option.some.inj hfile).symm)
    fun _ hmade => .inl ⟨hex, hdigest, (Option.some.inj hmade).symm⟩

theorem Only.recorded :
    Only env digest name path (.recorded (env.manifestPath name) :: effects) :=
  h.cons (.recorded (env.manifestPath name)) (fun _ hfile => nomatch hfile)
    fun _ hmade => .inr (Option.some.inj hmade).symm

end

theorem acceptEffects_only (env : Env) (io : Faults) (st : Store) (staged : Text)
    (manifest : Registry.Manifest) (expected : Text) :
    Only env expected manifest.name staged (acceptEffects env io st staged manifest expected) := by
  rw [acceptEffects]
  split
  · exact .nil
  split
  · split
    · exact Only.nil.deleted.hashed
    · next hsame =>
      split
      · next hex _ hhex =>
        have hdigest := (not_not.mp hsame).symm.trans (eq_of_hexOf hhex)
        split
        · exact Only.nil.recorded.deleted.hashed
        · split
          · exact (Only.nil.recorded.renamed hdigest).hashed
          · exact (Only.nil.renamed hdigest).hashed
      · exact Only.nil.hashed
  · exact Only.nil.hashed

/-- Accepting touches the staged file as soon as its path begins as it should. -/
theorem acceptEffects_touch (env : Env) (io : Faults) (st : Store) (staged : Text)
    (manifest : Registry.Manifest) (expected : Text) :
    (∃ effect ∈ acceptEffects env io st staged manifest expected, effect.file = some staged) ↔
      startsWith staged env.stagingDir := by
  rw [acceptEffects]
  by_cases hstaged : startsWith staged env.stagingDir
  · rw [if_neg (not_not.mpr hstaged)]
    refine ⟨fun _ => hstaged, fun _ => ⟨.hashed staged, ?_, rfl⟩⟩
    split
    · split
      · exact List.mem_cons_self
      · split
        · split
          · exact List.mem_cons_self
          · exact List.mem_cons_self
        · exact List.mem_cons_self
    · exact List.mem_cons_self
  · rw [if_pos hstaged]
    constructor
    · rintro ⟨effect, hmem, -⟩
      cases hmem
    · intro h
      exact absurd h hstaged

variable {daemon : Daemon} {answers : Answers} {source digest name : Text} {options : Options}
  {report : FetchReport}

theorem acceptServable_only (daemon : Daemon) (answers : Answers) (st : Store)
    (landed digest : Text) (manifest : Registry.Manifest) :
    Only daemon.env digest manifest.name landed
      (acceptServable daemon answers st landed digest manifest).1 := by
  rw [acceptServable]
  split
  · exact Only.nil.deleted
  · exact acceptEffects_only _ _ _ _ _ _

/-- The end of `install` leaves a file alone only if it is to be accepted and begins
    with another directory. -/
theorem acceptServable_touch (daemon : Daemon) (answers : Answers) (st : Store)
    (landed digest : Text) (manifest : Registry.Manifest) :
    (∃ effect ∈ (acceptServable daemon answers st landed digest manifest).1,
      effect.file = some landed) ↔
      (servable daemon.backends manifest = .ok () → startsWith landed daemon.env.stagingDir) := by
  rw [acceptServable]
  cases hservable : servable daemon.backends manifest with
  | error e => exact ⟨fun _ h => (nomatch h), fun _ => ⟨_, List.mem_cons_self, rfl⟩⟩
  | ok =>
    dsimp only
    rw [acceptEffects_touch]
    exact ⟨fun h _ => h, fun h => h rfl⟩

/-- The daemon refuses a path without a look at the file: no magic is asked for, the
    model is served, and the path does not begin with the staging directory. -/
def Unseen (daemon : Daemon) (manifest : Registry.Manifest) (landed : Text) : Prop :=
  manifest.format ≠ gguf ∧ servable daemon.backends manifest = .ok () ∧
    ¬ startsWith landed daemon.env.stagingDir

/-- A failure, or a file in the staging directory, or one that is not looked at. -/
def Harmless (daemon : Daemon) (source digest name : Text) (options : Options)
    (report : FetchReport) : Prop :=
  report.ok → Staged daemon.env (landedAt (targetOf daemon.env name) report) ∨
    Unseen daemon (fetchedManifest source digest name options report)
      (landedAt (targetOf daemon.env name) report)

theorem onReport_inside_iff (st : Store) (hname : usableName name) :
    Inside daemon.env digest name
        (onReport daemon answers st source digest name options
          (targetOf daemon.env name) report).1 ↔
      Harmless daemon source digest name options report := by
  rw [onReport, Harmless]
  by_cases hok : report.ok
  case neg =>
    rw [if_pos hok]
    constructor
    · intro _ h
      exact absurd h hok
    · intro _
      exact (Only.nil.deleted).inside_iff.mpr fun _ => target_staged hname
  rw [if_neg (not_not.mpr hok)]
  generalize landedAt (targetOf daemon.env name) report = landed
  have honly : Only daemon.env digest name landed (acceptServable daemon answers st landed digest
      (fetchedManifest source digest name options report)).1 :=
    acceptServable_only daemon answers st landed digest
      (fetchedManifest source digest name options report)
  have htouch := acceptServable_touch daemon answers st landed digest
    (fetchedManifest source digest name options report)
  have hseen : ∀ effects, Only daemon.env digest name landed effects →
      (∃ effect ∈ effects, effect.file = some landed) →
      ¬ Unseen daemon (fetchedManifest source digest name options report) landed →
      (Inside daemon.env digest name effects ↔ (report.ok → Staged daemon.env landed ∨
        Unseen daemon (fetchedManifest source digest name options report) landed)) := by
    intro effects honly hsome hseen
    rw [honly.inside_iff]
    constructor
    · intro h _
      exact .inl (h hsome)
    · intro h _
      exact (h hok).resolve_right hseen
  dsimp only
  by_cases hgguf : (fetchedManifest source digest name options report).format = gguf
  · have hnot : ¬ Unseen daemon (fetchedManifest source digest name options report) landed :=
      fun h => h.1 hgguf
    rw [if_pos hgguf]
    cases magic answers.magic (st.bytesAt daemon.env landed) with
    | error e => exact hseen _ Only.nil.opened ⟨_, List.mem_cons_self, rfl⟩ hnot
    | ok found =>
      dsimp only
      split
      · exact hseen _ honly.opened ⟨_, List.mem_cons_self, rfl⟩ hnot
      · exact hseen _ Only.nil.deleted.opened ⟨_, List.mem_cons_self, rfl⟩ hnot
  · rw [if_neg hgguf]
    by_cases hunseen : Unseen daemon (fetchedManifest source digest name options report) landed
    · rw [honly.inside_iff, htouch]
      constructor
      · intro _ _
        exact .inr hunseen
      · intro _ h
        exact absurd (h hunseen.2.1) hunseen.2.2
    · refine hseen _ honly (htouch.mpr fun hservable => ?_) hunseen
      by_contra hnot
      exact hunseen ⟨hgguf, hservable, hnot⟩

/-- `install` gets a report. -/
def Reported (daemon : Daemon) (answers : Answers) (st : Store) (source digest name : Text)
    (report : FetchReport) : Prop :=
  usableName name ∧ remoteColon.isPrefixOf? source = none ∧ sha256.isPrefixOf digest ∧
    (fetched daemon answers st name).2 = .ok report

/-- **What is done on account of a report stays in the staging directory** exactly if
    the report is harmless. -/
theorem install_inside_iff (daemon : Daemon) (answers : Answers) (st : Store)
    (source digest name : Text) (options : Options) :
    Inside daemon.env digest name (install daemon answers st source digest name options).1 ↔
      ∀ report, Reported daemon answers st source digest name report →
        Harmless daemon source digest name options report := by
  have hnothing : (∀ report, ¬ Reported daemon answers st source digest name report) →
      (Inside daemon.env digest name [] ↔ ∀ report,
        Reported daemon answers st source digest name report →
          Harmless daemon source digest name options report) := by
    intro hnone
    exact ⟨fun _ report h => absurd h (hnone report), fun _ effect hmem => nomatch hmem⟩
  rw [install]
  by_cases hname : usableName name
  case neg =>
    rw [if_pos hname]
    exact hnothing fun report h => hname h.1
  rw [if_neg (not_not.mpr hname)]
  cases hsource : remoteColon.isPrefixOf? source with
  | some endpointModel =>
    refine hnothing fun report h => ?_
    have hlocal := h.2.1
    rw [hsource] at hlocal
    cases hlocal
  | none =>
    dsimp only
    by_cases hdigest : sha256.isPrefixOf digest
    case neg =>
      rw [if_pos hdigest]
      exact hnothing fun report h => hdigest h.2.2.1
    rw [if_neg (not_not.mpr hdigest)]
    rcases hfetched : fetched daemon answers st name with ⟨st', e | report⟩
    · refine hnothing fun report h => ?_
      have hreport := h.2.2.2
      rw [hfetched] at hreport
      cases hreport
    · dsimp only
      rw [onReport_inside_iff st' hname]
      constructor
      · intro h other hother
        have hreport := hother.2.2.2
        rw [hfetched] at hreport
        cases hreport
        exact h
      · intro h
        exact h report ⟨hname, hsource, hdigest, by rw [hfetched]⟩

/-! ### A file at home -/

def notes : Text := "/home/user/notes.txt".toList

/-- A daemon with one backend, for which nothing fails. -/
def plainDaemon : Daemon where
  env :=
    { cwd := []
      root := "/var/lib/ai-daemon/models".toList
      digestOf := fun _ => sha256
      textOf := fun _ => []
      manifestOf := fun _ => none
      isEscaped := fun _ => false }
  libexecDir := "/usr/libexec".toList
  backends := ⟨[ggufBackend "llama".toList [generate]], fun _ => false⟩

/-- The helper says that it has put the file there; the file holds "note". -/
def reportsNotes : Answers where
  createStaging := .ok ()
  dropOld := .ok ()
  helperExists := true
  fetch _ := (Store.new ((∅ : Table (List Text) (List UInt8)).insert (resolve [] notes)
    [0x6e, 0x6f, 0x74, 0x65]), .ok ⟨true, [], notes, 4, []⟩)
  magic := .ok ()
  drop := .ok ()
  accept := .none

/-- The daemon deletes a file that is not the helper's. -/
theorem install_deletes_outside :
    ¬ Inside plainDaemon.env sha256 "small".toList
      (install plainDaemon reportsNotes (Store.new ∅) "file:///dev/null".toList
        sha256 "small".toList ⟨none, none, none, none, none⟩).1 := by
  intro hinside
  have hstaged := (hinside (.deleted notes) (by decide +kernel)).1 notes rfl
  revert hstaged
  exact show ¬ Below _ _ by decide +kernel

end AiDaemon.Install
