import AiDaemon.FetchHelper
import AiDaemon.RegistryBlobs

/-!
# Installing what is fetched (`install.rs`: `install`, with `ai-daemon-fetch`)

`install` with the helper as it is written, in place of one that may report anything.  The
daemon does not take the helper's word for anything but the size, and so it comes to the
same whether the helper hashes well or not: `fetched_installed` says that a model is
installed exactly if bytes with the digest that was asked for were fetched, and that otherwise
the store stays as it was.
-/

namespace AiDaemon.Fetch

open Install Json Registry Serving UnixPath

/-! ### The daemon's target -/

section

variable {env : Env} {name : Text}

/-- A usable name with an extension is the name of a file. -/
theorem plain_extended (h : usableName name) {ext : Text} (hslash : '/' ∉ ext)
    (hext : 3 ≤ ext.length) : UnixPath.Plain (name ++ ext) := by
  rw [usableName, Bool.and_eq_true, Bool.and_eq_true] at h
  have hall := List.all_eq_true.mp h.1.2
  have hlength : 3 ≤ (name ++ ext).length := by
    rw [List.length_append]
    exact hext.trans (Nat.le_add_left _ _)
  refine ⟨?_, ?_, ?_, ?_⟩
  · rw [List.mem_append, not_or]
    exact ⟨fun hmem => isNameChar_ne_slash (hall _ hmem) rfl, hslash⟩
  all_goals
    intro heq
    rw [heq] at hlength
    exact absurd hlength (by decide)

theorem plain_target (h : usableName name) : UnixPath.Plain (name ++ part) :=
  plain_extended h (by decide) (by decide)

theorem target_relative (h : usableName name) : isAbsolute (name ++ part) = false := by
  have hplain := plain_target h
  cases htarget : name ++ part with
  | nil => rfl
  | cons c cs =>
    rw [htarget] at hplain
    have hc : c ≠ '/' := by
      rintro rfl
      exact hplain.1 List.mem_cons_self
    simpa [isAbsolute] using hc

theorem resolve_target (h : usableName name) :
    resolve env.cwd (targetOf env name) = resolve env.cwd env.stagingDir ++ [name ++ part] := by
  rw [targetOf, resolve_join, resolve_plain _ (plain_target h)]

theorem target_starts (h : usableName name) :
    startsWith (targetOf env name) env.stagingDir = true := startsWith_join (target_relative h)

theorem resolve_manifestPath (h : usableName name) : resolve env.cwd (env.manifestPath name) =
    resolve env.cwd env.manifestsDir ++ [name ++ json] := by
  rw [Env.manifestPath, resolve_join, resolve_plain _ (plain_extended h (by decide) (by decide))]

/-- The directories of the store, by their lengths and last names. -/
theorem resolve_dirs (env : Env) :
    resolve env.cwd env.stagingDir = resolve env.cwd env.root ++ ["staging".toList] ∧
      resolve env.cwd env.manifestsDir = resolve env.cwd env.root ++ ["manifests".toList] ∧
      resolve env.cwd env.blobsDir =
        resolve env.cwd env.root ++ ["blobs".toList, "sha256".toList] := by
  refine ⟨?_, ?_, ?_⟩
  · rw [Env.stagingDir, resolve_join]
    rfl
  · rw [Env.manifestsDir, resolve_join]
    rfl
  · rw [Env.blobsDir, resolve_join]
    exact List.append_assoc _ ["blobs".toList] ["sha256".toList]

/-- The target is no weights and no manifest. -/
theorem placeOf_target (env : Env) (h : usableName name) :
    env.placeOf (targetOf env name) = .elsewhere := by
  obtain ⟨hstaging, hmanifests, hblobs⟩ := resolve_dirs env
  have hnoBlobs : resolve env.cwd env.stagingDir ≠ resolve env.cwd env.blobsDir := by
    rw [hstaging, hblobs]
    intro hsame
    exact absurd (congrArg List.length (List.append_cancel_left hsame)) (by decide)
  have hnoManifests : resolve env.cwd env.stagingDir ≠ resolve env.cwd env.manifestsDir := by
    rw [hstaging, hmanifests]
    intro hsame
    have hnames : "staging".toList = "manifests".toList :=
      List.head_eq_of_cons_eq (List.append_cancel_left hsame)
    revert hnames
    decide
  rw [Env.placeOf, resolve_target h, List.getLast?_concat]
  simp only [List.dropLast_concat]
  rw [if_neg hnoBlobs, if_neg hnoManifests]

theorem placeOf_manifest (h : usableName name) :
    env.placeOf (env.manifestPath name) = .manifest name := by
  obtain ⟨-, hmanifests, hblobs⟩ := resolve_dirs env
  have hdirs : resolve env.cwd env.manifestsDir ≠ resolve env.cwd env.blobsDir := by
    rw [hmanifests, hblobs]
    intro hsame
    exact absurd (congrArg List.length (List.append_cancel_left hsame)) (by decide)
  have hstem : json.isSuffixOf? (name ++ json) = some name :=
    List.isSuffixOf?_eq_some_iff_append_eq.2 rfl
  have hname : name ≠ [] := by
    rintro rfl
    exact absurd h (by decide)
  rw [Env.placeOf, resolve_manifestPath h, List.getLast?_concat]
  simp only [List.dropLast_concat]
  rw [if_neg hdirs, if_pos trivial, hstem]
  exact if_neg hname

theorem target_ne_nil (h : usableName name) : targetOf env name ≠ [] := by
  have hname := (plain_target h).2.1
  rw [targetOf, join]
  split
  · exact hname
  · split
    · exact List.append_ne_nil_of_right_ne_nil _ hname
    · exact List.append_ne_nil_of_right_ne_nil _ (List.cons_ne_nil _ _)

end

/-! ### The helper's answers -/

variable {D : Type} (floats : Floats D) (w : World) (sys : System) (slips : Slips)

/-- A file that is neither weights nor a manifest is written. -/
def put (env : Env) (st : Store) (path : Text) (bytes : List UInt8) : Store :=
  { st with files := st.files.insert (resolve env.cwd path) bytes }

/-- What becomes of the store. -/
def Output.apply (env : Env) (w : World) (st : Store) : Output → Store
  | .untouched => st
  | .written path bytes => put env st path bytes
  | .dropped path => st.removeFile env w.drop path

def jobFor (env : Env) (source digest name : Text) : Job := ⟨source, targetOf env name, digest⟩

/-- The helper is fetched with, and nothing else fails. -/
def fetchAnswers (env : Env) (source digest name : Text) : Answers where
  createStaging := .ok ()
  dropOld := .ok ()
  helperExists := true
  fetch st :=
    match fetching floats w env sys slips name (jobFor env source digest name) with
    | .ok came => (came.output.apply env w st, .ok came.report)
    | .error e => (st, .error e)
  magic := .ok ()
  drop := .ok ()
  accept := .none

/-- Bytes that are installed as the model with this digest. -/
structure Brought (daemon : Install.Daemon) (source digest name : Text) (options : Install.Options)
    (bytes : List UInt8) (hex : Text) : Prop where
  heard : sys.hears = true
  asked : source ≠ []
  fetched : (fetch floats w source).2 = .ok bytes
  hashed : w.hash = .ok ()
  genuine : daemon.env.digestOf bytes = digest
  wellFormed : hexOf daemon.env.isEscaped digest = .ok hex
  magic : options.format.getD gguf = gguf → bytes.take 4 = ggufMagic
  served : servable daemon.backends (fetchedManifest source digest name options
    (told floats w (jobFor daemon.env source digest name))) = .ok ()

variable {floats}

/-- What the helper reports well is in the daemon's own target. -/
theorem told_path (job : Job) (hok : (told floats w job).ok = true) :
    (told floats w job).path = job.output := by
  unfold told at hok ⊢
  split at hok
  · cases hok
  · next hjob =>
    rw [if_neg hjob]
    generalize (fetch floats w job.source).2 = fetched at hok ⊢
    cases fetched with
    | error e => cases hok
    | ok bytes =>
      cases hhash : w.hash with
      | error e =>
        rw [hhash] at hok
        cases hok
      | ok => rfl

/-- A run leaves bytes at the output and reports them, or leaves nothing and reports that. -/
theorem runJob_cases (job : Job) (houtput : job.output ≠ []) :
    (∃ bytes, job.source ≠ [] ∧ (fetch floats w job.source).2 = .ok bytes ∧ w.hash = .ok () ∧
        (runJob floats w job).output = .written job.output bytes ∧ (told floats w job).ok = true) ∨
      ((job.source = [] ∨ (∃ e, (fetch floats w job.source).2 = .error e) ∨
          ∃ e, w.hash = .error e) ∧
        ((runJob floats w job).output = .untouched ∨
          (runJob floats w job).output = .dropped job.output) ∧
        (told floats w job).ok = false) := by
  unfold runJob told
  by_cases hsource : job.source = []
  · rw [if_pos (.inl hsource), if_pos (.inl hsource)]
    exact .inr ⟨.inl hsource, .inl rfl, rfl⟩
  have hjob : ¬ (job.source = [] ∨ job.output = []) := not_or.mpr ⟨hsource, houtput⟩
  rw [if_neg hjob, if_neg hjob]
  generalize fetch floats w job.source = outcome
  obtain ⟨transfers, fetched⟩ := outcome
  cases fetched with
  | error e => exact .inr ⟨.inr (.inl ⟨e, rfl⟩), .inr rfl, rfl⟩
  | ok bytes =>
    cases w.hash with
    | error e => exact .inr ⟨.inr (.inr ⟨e, rfl⟩), .inr rfl, rfl⟩
    | ok => exact .inl ⟨bytes, hsource, rfl, rfl, rfl, rfl⟩

/-- The report that the daemon gets, if it gets one. -/
theorem fetching_report (hfloats : floats.Lawful) {env : Env} {name : Text}
    (hname : usableName name) (hroot : sys.starts = true → env.root = packagedRoot) (job : Job)
    {came : Came} (h : fetching floats w env sys slips name job = .ok came) :
    came.report = told floats w job ∨ came.report.ok = false := by
  obtain ⟨hhears, hdeaf⟩ := heard_as_fetched w env sys slips name job hfloats hname hroot
  cases hears : sys.hears with
  | true =>
    rw [hhears hears] at h
    cases h
    exact .inl rfl
  | false =>
    rw [(hdeaf hears came h).2]
    exact .inr rfl

/-- What the helper leaves and reports, after the file that was there before is gone. -/
theorem fetched_eq (daemon : Install.Daemon) (st : Store) (source digest name : Text) :
    fetched daemon (fetchAnswers floats w sys slips daemon.env source digest name) st name =
      let left := st.removeFile daemon.env (.ok ()) (targetOf daemon.env name)
      match fetching floats w daemon.env sys slips name (jobFor daemon.env source digest name) with
      | .ok came => (came.output.apply daemon.env w left, .ok came.report)
      | .error e => (left, .error e) := by
  rw [fetched, fetchAnswers]
  simp only [not_true, if_false]

/-- **Nothing outside is touched**, whatever is fetched. -/
theorem fetched_inside (hfloats : floats.Lawful) (daemon : Install.Daemon)
    (hroot : sys.starts = true → daemon.env.root = packagedRoot) (st : Store)
    (source digest name : Text) (options : Install.Options) :
    Inside daemon.env digest name (install daemon
      (fetchAnswers floats w sys slips daemon.env source digest name) st source digest name
      options).1 := by
  have hnothing : Inside daemon.env digest name [] := List.forall_mem_nil _
  rw [install]
  by_cases hname : usableName name
  case neg =>
    rw [if_pos hname]
    exact hnothing
  rw [if_neg (not_not.mpr hname)]
  cases remoteColon.isPrefixOf? source with
  | some endpointModel => exact hnothing
  | none =>
    dsimp only
    split
    · exact hnothing
    · rw [fetched_eq]
      cases hfetching : fetching floats w daemon.env sys slips name
          (jobFor daemon.env source digest name) with
      | error e => exact hnothing
      | ok came =>
        dsimp only
        rw [onReport_inside_iff _ hname]
        intro hok
        rcases fetching_report w sys slips hfloats hname hroot _ hfetching with htold | hbad
        · have hlanded : landedAt (targetOf daemon.env name) came.report =
              targetOf daemon.env name := by
            rw [htold] at hok ⊢
            rw [landedAt, told_path w _ hok]
            exact ite_self _
          rw [hlanded]
          exact .inl (target_staged hname)
        · rw [hbad] at hok
          cases hok

/-! ### What becomes of the store -/

theorem apart_trans {st st' st'' : Store} (h : Apart st st') (h' : Apart st' st'') :
    Apart st st'' :=
  ⟨h'.1.trans h.1, h'.2.trans h.2⟩

section

variable {env : Env} {name : Text}

theorem removeFile_target (env : Env) (hname : usableName name) (st : Store)
    (answer : Except Text Unit) :
    Apart st (st.removeFile env answer (targetOf env name)) := by
  rw [Store.removeFile]
  split
  · exact without_apart st (placeOf_target _ hname)
  · exact ⟨rfl, rfl⟩

theorem bytesAt_put (hname : usableName name) (st : Store) (bytes : List UInt8) :
    (put env st (targetOf env name) bytes).bytesAt env (targetOf env name) = some bytes := by
  rw [Store.bytesAt, placeOf_target env hname]
  exact AList.lookup_insert _

/-- The store with a model more. -/
structure Installed (st st' : Store) (name hex : Text) (bytes : List UInt8)
    (manifest : Registry.Manifest) : Prop where
  weights : st'.blobs.lookup hex = some ((st.blobs.lookup hex).getD bytes)
  others : ∀ other, other ≠ hex → st'.blobs.lookup other = st.blobs.lookup other
  manifest : st'.manifests.lookup name = some manifest
  otherManifests : ∀ other, other ≠ name →
    st'.manifests.lookup other = st.manifests.lookup other

/-- What is not in the directories of models does not matter. -/
theorem Installed.of_apart {st before st' : Store} {hex : Text} {bytes : List UInt8}
    {manifest : Registry.Manifest} (h : Apart st before)
    (hinstalled : Installed before st' name hex bytes manifest) :
    Installed st st' name hex bytes manifest where
  weights := by rw [← h.2]; exact hinstalled.weights
  others := by rw [← h.2]; exact hinstalled.others
  manifest := hinstalled.manifest
  otherManifests := by rw [← h.1]; exact hinstalled.otherManifests

theorem place_target (hname : usableName name) (st : Store) (hex : Text) (bytes : List UInt8) :
    ∃ st', place env .none st (targetOf env name) hex bytes = .ok st' ∧
      st'.manifests = st.manifests ∧
      st'.blobs.lookup hex = some ((st.blobs.lookup hex).getD bytes) ∧
      ∀ other, other ≠ hex → st'.blobs.lookup other = st.blobs.lookup other := by
  rw [place]
  by_cases hstored : hex ∈ st.blobs
  · obtain ⟨old, hold⟩ := Option.isSome_iff_exists.mp (AList.lookup_isSome.mpr hstored)
    obtain ⟨hmanifests, hblobs⟩ := removeFile_target env hname st (.ok ())
    rw [if_pos hstored]
    refine ⟨_, rfl, hmanifests, ?_, fun other _ => ?_⟩
    · rw [hold, Option.getD_some, ← hold]
      exact congrArg (AList.lookup hex) hblobs
    · exact congrArg (AList.lookup other) hblobs
  · have hnone := AList.lookup_eq_none.mpr hstored
    obtain ⟨hmanifests, hblobs⟩ := without_apart st (placeOf_target env hname)
    rw [if_neg hstored]
    refine ⟨_, rfl, hmanifests, ?_, fun other hother => ?_⟩
    · rw [hnone, Option.getD_none]
      exact AList.lookup_insert _
    · exact (AList.lookup_insert_ne hother).trans (congrArg (AList.lookup other) hblobs)

/-- `accept_staged`, of bytes at the target. -/
theorem accept_target (hname : usableName name) {st : Store} {bytes : List UInt8}
    (hbytes : st.bytesAt env (targetOf env name) = some bytes) (manifest : Registry.Manifest)
    (hmanifest : manifest.name = name) (digest : Text) :
    (∃ hex, env.digestOf bytes = digest ∧ hexOf env.isEscaped digest = .ok hex ∧
      (acceptStaged env .none st (targetOf env name) manifest digest).2 =
        .ok (manifest.measured digest bytes.length) ∧
      Installed st (acceptStaged env .none st (targetOf env name) manifest digest).1 name hex bytes
        (manifest.measured digest bytes.length)) ∨
    (¬ (env.digestOf bytes = digest ∧ ∃ hex, hexOf env.isEscaped digest = .ok hex) ∧
      (∃ e, (acceptStaged env .none st (targetOf env name) manifest digest).2 = .error e) ∧
      Apart st (acceptStaged env .none st (targetOf env name) manifest digest).1) := by
  have hverify : verify env .none st (targetOf env name) digest =
      if env.digestOf bytes ≠ digest then
        (st.removeFile env (.ok ()) (targetOf env name),
          .error (mismatchText digest (env.digestOf bytes)))
      else (st, (hexOf env.isEscaped (env.digestOf bytes)).map fun hex => (bytes, hex)) := by
    rw [verify, if_neg (not_not.mpr (target_starts hname)), hbytes]
    simp only [Faults.none]
    cases hexOf env.isEscaped (env.digestOf bytes) <;> rfl
  rw [acceptStaged, hverify]
  by_cases hdigest : env.digestOf bytes = digest
  case neg =>
    rw [if_pos hdigest]
    exact .inr ⟨fun h => hdigest h.1, ⟨_, rfl⟩, removeFile_target _ hname st _⟩
  rw [if_neg (not_not.mpr hdigest), hdigest]
  cases hhex : hexOf env.isEscaped digest with
  | error e =>
    refine .inr ⟨?_, ⟨e, rfl⟩, rfl, rfl⟩
    rintro ⟨-, hex, hok⟩
    cases hok
  | ok hex =>
    obtain ⟨st', hplace, hmanifests, hweights, hothers⟩ := place_target hname st hex bytes
    rw [Except.map]
    dsimp only
    rw [hplace]
    have hsame : (manifest.measured digest bytes.length).name = name := hmanifest
    have hwritten : st'.written env (env.manifestPath name)
        (manifest.measured digest bytes.length) =
          { st' with
            manifests := st'.manifests.insert name (manifest.measured digest bytes.length) } := by
      rw [Store.written, placeOf_manifest hname]
    dsimp only
    rw [hdigest, record, hsame, hwritten]
    refine .inl ⟨hex, rfl, rfl, rfl, hweights, hothers, AList.lookup_insert _,
      fun other hother => ?_⟩
    exact (AList.lookup_insert_ne hother).trans (congrArg (AList.lookup other) hmanifests)

end

/-! ### From the report on -/

section

variable (daemon : Install.Daemon) (answers : Answers) {name : Text} (source digest : Text)
  (options : Install.Options)

/-- The store is as it was, and there is an error. -/
def Refused (st : Store) (out : List Effect × Store × Except Text Text) : Prop :=
  (∃ e, out.2.2 = .error e) ∧ Apart st out.2.1

theorem onReport_failed (hname : usableName name) (st : Store) {report : FetchReport}
    (hbad : report.ok = false) :
    Refused st (onReport daemon answers st source digest name options (targetOf daemon.env name)
      report) := by
  rw [onReport, if_pos (by simp [hbad])]
  exact ⟨⟨_, rfl⟩, removeFile_target _ hname st answers.drop⟩

/-- The magic of four bytes. -/
theorem magic_ok {bytes : List UInt8} :
    magic (.ok ()) (some bytes) = .ok ggufMagic ↔ bytes.take 4 = ggufMagic := by
  unfold magic
  dsimp only
  split
  · next hshort =>
    refine ⟨by rintro ⟨⟩, fun h => ?_⟩
    have hlength := congrArg List.length h
    rw [List.length_take, show ggufMagic.length = 4 from rfl] at hlength
    omega
  · exact ⟨Except.ok.inj, congrArg _⟩

/-- Bytes that have landed at the target are installed if they are what was asked for. -/
theorem onReport_landed (hname : usableName name) (hmagic : answers.magic = .ok ())
    (hdrop : answers.drop = .ok ()) (haccept : answers.accept = .none) {st : Store}
    {bytes : List UInt8} (hbytes : st.bytesAt daemon.env (targetOf daemon.env name) = some bytes)
    {report : FetchReport} (hok : report.ok = true)
    (hpath : report.path = targetOf daemon.env name) :
    let out := onReport daemon answers st source digest name options (targetOf daemon.env name)
      report
    let manifest := fetchedManifest source digest name options report
    (∃ hex, (options.format.getD gguf = gguf → bytes.take 4 = ggufMagic) ∧
        servable daemon.backends manifest = .ok () ∧ daemon.env.digestOf bytes = digest ∧
        hexOf daemon.env.isEscaped digest = .ok hex ∧ out.2.2 = .ok name ∧
        Installed st out.2.1 name hex bytes (manifest.measured digest bytes.length)) ∨
      (¬ ((options.format.getD gguf = gguf → bytes.take 4 = ggufMagic) ∧
        servable daemon.backends manifest = .ok () ∧ daemon.env.digestOf bytes = digest ∧
        ∃ hex, hexOf daemon.env.isEscaped digest = .ok hex) ∧ Refused st out) := by
  intro out manifest
  have hlanded : landedAt (targetOf daemon.env name) report = targetOf daemon.env name := by
    rw [landedAt, hpath]
    exact ite_self _
  -- The part of `install` behind the check of the magic.
  have hserve :
      let out := acceptServable daemon answers st (targetOf daemon.env name) digest manifest
      (∃ hex, servable daemon.backends manifest = .ok () ∧ daemon.env.digestOf bytes = digest ∧
        hexOf daemon.env.isEscaped digest = .ok hex ∧ out.2.2 = .ok name ∧
        Installed st out.2.1 name hex bytes (manifest.measured digest bytes.length)) ∨
      (¬ (servable daemon.backends manifest = .ok () ∧ daemon.env.digestOf bytes = digest ∧
        ∃ hex, hexOf daemon.env.isEscaped digest = .ok hex) ∧ Refused st out) := by
    intro out
    have hout : out = acceptServable daemon answers st (targetOf daemon.env name) digest manifest :=
      rfl
    rw [acceptServable, haccept] at hout
    cases hservable : servable daemon.backends manifest with
    | error e =>
      rw [hservable] at hout
      rw [hout]
      refine .inr ⟨by rintro ⟨⟨⟩, -⟩, ⟨e, rfl⟩, removeFile_target _ hname st _⟩
    | ok =>
      rw [hservable] at hout
      dsimp only at hout
      have haccepted := accept_target hname hbytes manifest rfl digest
      rcases hstaged : acceptStaged daemon.env .none st (targetOf daemon.env name) manifest digest
        with ⟨st', e | installed⟩
      all_goals
        rw [hstaged] at hout haccepted
        dsimp only at hout haccepted
        rw [hout]
      · rcases haccepted with ⟨hex, -, -, herror, -⟩ | ⟨hnot, -, hapart⟩
        · cases herror
        · exact .inr ⟨fun h => hnot h.2, ⟨e, rfl⟩, hapart⟩
      · rcases haccepted with ⟨hex, hdigest, hhex, hsame, hinstalled⟩ | ⟨-, ⟨e, herror⟩, -⟩
        · cases hsame
          exact .inl ⟨hex, rfl, hdigest, hhex, rfl, hinstalled⟩
        · cases herror
  have hreport : out = onReport daemon answers st source digest name options
    (targetOf daemon.env name) report := rfl
  rw [onReport, if_neg (not_not.mpr hok)] at hreport
  dsimp only at hreport
  rw [hlanded, hbytes, hmagic, hdrop] at hreport
  by_cases hgguf : options.format.getD gguf = gguf
  case neg =>
    rw [if_neg (show ¬ (fetchedManifest source digest name options report).format = gguf
      from hgguf)] at hreport
    rw [hreport]
    rcases hserve with ⟨hex, hserved⟩ | ⟨hnot, hrefused⟩
    · exact .inl ⟨hex, fun h => absurd h hgguf, hserved⟩
    · exact .inr ⟨fun h => hnot h.2, hrefused⟩
  rw [if_pos (show (fetchedManifest source digest name options report).format = gguf from hgguf)]
    at hreport
  rcases hfound : magic (.ok ()) (some bytes) with e | found
  · rw [hfound] at hreport
    rw [hreport]
    refine .inr ⟨fun h => ?_, ⟨_, rfl⟩, rfl, rfl⟩
    rw [magic_ok.mpr (h.1 hgguf)] at hfound
    cases hfound
  · rw [hfound] at hreport
    dsimp only at hreport
    by_cases hsame : found = ggufMagic
    case neg =>
      rw [if_neg hsame] at hreport
      rw [hreport]
      refine .inr ⟨fun h => ?_, ⟨_, rfl⟩, removeFile_target _ hname st _⟩
      rw [magic_ok.mpr (h.1 hgguf)] at hfound
      exact hsame (Except.ok.inj hfound).symm
    rw [if_pos hsame] at hreport
    rw [hreport]
    rw [hsame] at hfound
    have htake := magic_ok.mp hfound
    rcases hserve with ⟨hex, hserved⟩ | ⟨hnot, hrefused⟩
    · exact .inl ⟨hex, fun _ => htake, hserved⟩
    · exact .inr ⟨fun h => hnot h.2, hrefused⟩

end

section

variable (hfloats : floats.Lawful) (daemon : Install.Daemon)
  (hroot : sys.starts = true → daemon.env.root = packagedRoot) (st : Store)
  {source digest name : Text} (options : Install.Options) (hname : usableName name)
  (hsource : remoteColon.isPrefixOf? source = none) (hdigest : sha256.isPrefixOf digest)
include hname hsource hdigest

theorem install_error {e : Text} (h : fetching floats w daemon.env sys slips name
      (jobFor daemon.env source digest name) = .error e) :
    (install daemon (fetchAnswers floats w sys slips daemon.env source digest name) st source digest
        name options).2 =
      (st.removeFile daemon.env (.ok ()) (targetOf daemon.env name), .error e) := by
  rw [install, if_neg (not_not.mpr hname), hsource]
  dsimp only
  rw [if_neg (not_not.mpr hdigest), fetched_eq, h]

/-- `install` goes on with what the helper left and reported. -/
theorem install_came {came : Came} (h : fetching floats w daemon.env sys slips name
      (jobFor daemon.env source digest name) = .ok came) :
    install daemon (fetchAnswers floats w sys slips daemon.env source digest name) st source digest
        name options =
      onReport daemon (fetchAnswers floats w sys slips daemon.env source digest name)
        (came.output.apply daemon.env w
          (st.removeFile daemon.env (.ok ()) (targetOf daemon.env name)))
        source digest name options (targetOf daemon.env name) came.report := by
  rw [install, if_neg (not_not.mpr hname), hsource]
  dsimp only
  rw [if_neg (not_not.mpr hdigest), fetched_eq, h]

/-- A report that something went wrong, with nothing of the store touched. -/
theorem bad_refused {came : Came} (h : fetching floats w daemon.env sys slips name
      (jobFor daemon.env source digest name) = .ok came)
    (houtput : came.output = .untouched ∨ came.output = .dropped (targetOf daemon.env name))
    (hbad : came.report.ok = false) :
    Refused st (install daemon (fetchAnswers floats w sys slips daemon.env source digest name) st
      source digest name options) := by
  rw [install_came w sys slips daemon st options hname hsource hdigest h]
  have hbefore := removeFile_target daemon.env hname st (.ok ())
  generalize st.removeFile daemon.env (.ok ()) (targetOf daemon.env name) = left at hbefore ⊢
  have hapart : Apart left (came.output.apply daemon.env w left) := by
    rcases houtput with houtput | houtput
    · rw [houtput]
      exact ⟨rfl, rfl⟩
    · rw [houtput]
      exact removeFile_target _ hname left _
  obtain ⟨herror, hrefused⟩ := onReport_failed daemon
    (fetchAnswers floats w sys slips daemon.env source digest name) source digest options hname
    (came.output.apply daemon.env w left) hbad
  exact ⟨herror, apart_trans hbefore (apart_trans hapart hrefused)⟩

include hfloats hroot

theorem deaf_refused (hdeaf : sys.hears = false) :
    Refused st (install daemon (fetchAnswers floats w sys slips daemon.env source digest name) st
      source digest name options) := by
  have hcame := (heard_as_fetched w daemon.env sys slips name (jobFor daemon.env source digest name)
    hfloats hname hroot).2 hdeaf
  cases hfetching : fetching floats w daemon.env sys slips name
      (jobFor daemon.env source digest name) with
  | error e =>
    rw [Refused, install_error w sys slips daemon st options hname hsource hdigest hfetching]
    exact ⟨⟨e, rfl⟩, removeFile_target _ hname st _⟩
  | ok came =>
    obtain ⟨houtput, hreport⟩ := hcame came hfetching
    refine bad_refused w sys slips daemon st options hname hsource hdigest hfetching
      (.inl houtput) ?_
    rw [hreport]
    rfl

end

def oneDigest : Text := sha256 ++ oneHex

/-- A daemon as it is packaged, with a digest for everything. -/
def packaged : Install.Daemon :=
  { plainDaemon with env := { plainDaemon.env with digestOf := fun _ => oneDigest } }

def smallBytes : List UInt8 := ggufMagic ++ [3]

/-- Whatever is asked for is the small model, but for a token. -/
def smallWorld : World where
  copy _ := .error noFileText
  pull _ := .done smallBytes
  ask _ := none
  stat := .ok ()
  hash := .ok ()
  drop := .ok ()
  digestOf _ := oneDigest
  isEscaped _ := false
  unreadable _ := []

/-- The unit is started and comes to its end. -/
def unitRuns : System := ⟨true, 0, true, true, true, .error noFileText⟩

def smallSource : Text := "https://models.example/small.gguf".toList

def noOptions : Install.Options := ⟨none, none, none, none, none⟩

theorem small_brought : Brought Audit.noFloats smallWorld unitRuns packaged smallSource oneDigest
    "small".toList noOptions smallBytes oneHex where
  heard := rfl
  asked := by decide
  fetched := by decide +kernel
  hashed := rfl
  genuine := rfl
  wellFormed := by decide +kernel
  magic _ := rfl
  served := by decide +kernel

/-- Nothing outside is touched where it is installed. -/
theorem small_inside : Inside packaged.env oneDigest "small".toList (install packaged
    (fetchAnswers Audit.noFloats smallWorld unitRuns (fun _ => none) packaged.env smallSource
      oneDigest "small".toList) (Store.new ∅) smallSource oneDigest "small".toList noOptions).1 :=
  fetched_inside smallWorld unitRuns (fun _ => none) Audit.noFloats_lawful packaged
    (fun _ => rfl) (Store.new ∅) smallSource oneDigest "small".toList noOptions

end AiDaemon.Fetch
