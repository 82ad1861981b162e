import AiDaemon.IdentityKeys
import AiDaemon.Install
import AiDaemon.JsonObjects
import AiDaemon.ShimHttp

/-!
# The process that has a network (`ai-daemon-fetch`, `fetch_via_systemd`, `fetch_directly`)

The daemon has no network.  It leaves a job in the staging directory, has `systemd` start the
helper on it and waits for the report; where there is no `systemd` it runs the helper
itself, with the job in its arguments.  Either way the helper fetches by `curl`, from an
`https` URL or an OCI registry, or copies a file.

`fetch_pinned` says what the helper asks the network for, and `heard_as_fetched` that on
either way it is asked for what the daemon meant and the daemon hears what came of it.
-/

namespace AiDaemon.Fetch

open Install Json Registry UnixPath
open Shim (memberAt memberAt_object number object)
open ShimHttp (splitOnce splitOnce_eq_some)

variable {D : Type}

/-! ### The network -/

/-- What `curl` is asked for, by `https` only. Its answer goes to the output, or to a pipe. -/
structure Transfer where
  url : Text
  headers : List Text
  kept : Bool
deriving DecidableEq

/-- How a transfer to the output ends. -/
inductive CurlEnd where
  | notRun (error : Text)
  | failed (status : Text)
  | done (bytes : List UInt8)

/-- What the helper finds: files and the network, and how its own steps go. `ask` is what
    `curl` writes to a pipe where it succeeds. -/
structure World where
  copy : Text → Except Text (List UInt8)
  pull : Transfer → CurlEnd
  ask : Transfer → Option Text
  stat : Except Text Unit
  hash : Except Text Unit
  drop : Except Text Unit
  digestOf : List UInt8 → Text
  isEscaped : Char → Bool
  /-- The text of an error of `serde_json`, with the text it read. -/
  unreadable : Text → Text

variable (floats : Floats D) (w : World)

def curl (url : Text) (extra : List Text) : List Transfer × Except Text (List UInt8) :=
  let transfer : Transfer := ⟨url, extra, true⟩
  ([transfer],
    match w.pull transfer with
    | .notRun e => .error ("running curl: ".toList ++ e)
    | .failed status =>
      .error ("curl failed with ".toList ++ status ++ " fetching ".toList ++ url)
    | .done bytes =>
      match w.stat with
      | .ok () => .ok bytes
      | .error e => .error ("stat of the download: ".toList ++ e))

/-- The token in the answer of a registry. -/
def tokenOf (body : Value D) : Option Text :=
  ((body.get "token".toList).or (body.get "access_token".toList)).bind Value.asStr

def registryToken (registry repository : Text) : List Transfer × Option Text :=
  let transfer : Transfer :=
    ⟨"https://".toList ++ registry ++ "/token?service=".toList ++ registry ++
      "&scope=repository:".toList ++ repository ++ ":pull".toList, [], false⟩
  ([transfer], ((w.ask transfer).bind (fromStr floats)).bind tokenOf)

def fetchOci (reference : Text) : List Transfer × Except Text (List UInt8) :=
  match Text.rsplitOnce ['@'] reference with
  | none => ([], .error "an oci:// reference must be pinned by @sha256:...".toList)
  | some (repository, digest) =>
    if ¬ sha256.isPrefixOf digest then ([], .error "only sha256 digests are supported".toList)
    else
      match splitOnce '/' repository with
      | none =>
        ([], .error "an oci:// reference needs a registry and a repository".toList)
      | some (registry, path) =>
        let (asked, found) := registryToken floats w registry path
        let token := found.getD []
        let url := "https://".toList ++ registry ++ "/v2/".toList ++ path ++
          "/blobs/".toList ++ digest
        let headers := ["-H".toList, "Accept: application/octet-stream".toList] ++
          if token = [] then [] else ["-H".toList, "Authorization: Bearer ".toList ++ token]
        let (pulled, bytes) := curl w url headers
        (asked ++ pulled, bytes)

def localCopyError (path e : Text) : Text :=
  let base := "copying ".toList ++ path ++ ": ".toList ++ e
  if "/home/".toList.isPrefixOf path ∨ "/root/".toList.isPrefixOf path then
    base ++ ("\nthis helper runs with ProtectHome=yes and cannot read home directories, " ++
      "so a file:// source under one is never visible to it regardless of its " ++
      "permissions; stage the file somewhere outside /home (/var/cache, /srv " ++
      "and /tmp all work) and install from there, or serve it over https://").toList
  else base

def refusedText : Text :=
  ("http:// sources are refused; use https:// or a digest-pinned oci:// reference").toList

/-- `fetch`: the transfers, and the bytes that are then at the output. -/
def fetch (source : Text) : List Transfer × Except Text (List UInt8) :=
  match ("file://".toList.isPrefixOf? source).or
      (if source.head? = some '/' then some source else none) with
  | some path =>
    ([], match w.copy path with
      | .ok bytes => .ok bytes
      | .error e => .error (localCopyError path e))
  | none =>
    match "oci://".toList.isPrefixOf? source with
    | some reference => fetchOci floats w reference
    | none =>
      if "https://".toList.isPrefixOf source then curl w source []
      else if "http://".toList.isPrefixOf source then ([], .error refusedText)
      else
        ([], .error ("unsupported source scheme in ".toList ++ Turn.quoted w.isEscaped source))

/-! ### The helper -/

structure Job where
  source : Text
  output : Text
  digest : Text
deriving DecidableEq

/-- `serde`, of a job. -/
def jobOf (v : Value D) : Option Job := do
  let source ← (v.get "source".toList).bind Value.asStr
  let output ← (v.get "output".toList).bind Value.asStr
  let digest ← match v.get "digest".toList with
    | none => some []
    | some digest => digest.asStr
  some ⟨source, output, digest⟩

/-- What the arguments say: a job, and a file with another. -/
structure Args where
  job : Job
  jobFile : Option Text
deriving DecidableEq

inductive Flag where
  | job
  | source
  | output
  | expectDigest
deriving DecidableEq

def flagOf (arg : Text) : Option Flag :=
  if arg = "--job".toList then some .job
  else if arg = "--source".toList then some .source
  else if arg = "--output".toList then some .output
  else if arg = "--expect-digest".toList then some .expectDigest
  else none

/-- A flag and its value, which may not be there. -/
def Args.set (args : Args) (value : Option Text) : Flag → Args
  | .job => { args with jobFile := value }
  | .source => { args with job.source := value.getD [] }
  | .output => { args with job.output := value.getD [] }
  | .expectDigest => { args with job.digest := value.getD [] }

/-- How the arguments end. -/
inductive Parsed where
  | run (args : Args)
  /-- The version or the help is printed, and that is all. -/
  | printed
  | unknown (arg : Text)
deriving DecidableEq

/-- The loop over the arguments, with a flag that awaits its value. -/
def parseArgs (args : Args) : Option Flag → List Text → Parsed
  | none, [] => .run args
  | some flag, [] => .run (args.set none flag)
  | some flag, value :: rest => parseArgs (args.set (some value) flag) none rest
  | none, arg :: rest =>
    match flagOf arg with
    | some flag => parseArgs args (some flag) rest
    | none =>
      if arg = "--version".toList ∨ arg = "-V".toList ∨ arg = "--help".toList ∨ arg = "-h".toList
        then .printed
      else .unknown arg

/-- `with_extension`, of a path that ends in the name of a file. -/
def withExtension (path ext : Text) : Text :=
  let file := fileOf path
  let stem := match Text.rsplitOnce ['.'] file with
    | some (before, _) => if before = [] then file else before
    | none => file
  folderOf path ++ stem ++ '.' :: ext

/-- The file for the report, if the job came in one. -/
def reportPath : List Text → Option Text
  | [] => none
  | arg :: rest =>
    if arg = "--job".toList then
      rest.head?.map fun path => withExtension path "report".toList
    else reportPath rest

/-- The small files in the staging directory, by their paths. -/
abbrev Slips := Text → Option Text

/-- What becomes of the file at the output. -/
inductive Output where
  | untouched
  | written (path : Text) (bytes : List UInt8)
  | dropped (path : Text)

/-- A run of the helper. -/
structure Ran where
  transfers : List Transfer
  output : Output
  /-- The line it reports. -/
  said : Option Text

/-- What `format!` puts around the fields of a report. -/
def okMark : Text := "\x7b\"ok\":true,\"path\":".toList

def bytesMark : Text := ",\"bytes\":".toList

def digestMark : Text := ",\"digest\":".toList

def failMark : Text := "\x7b\"ok\":false,\"error\":".toList

def okText (output : Text) (bytes : List UInt8) (digest : Text) : Text :=
  okMark ++ write floats (.str output) ++ bytesMark ++
    Text.ofNat (UInt64.ofNat bytes.length).toNat ++ digestMark ++ write floats (.str digest) ++
    ['\x7d']

/-- `fail` -/
def failText (message : Text) : Text :=
  failMark ++ write floats (.str message) ++ ['\x7d']

/-- A run of `main` on a job. -/
def runJob (job : Job) : Ran :=
  if job.source = [] ∨ job.output = [] then
    ⟨[], .untouched, some (failText floats
      "--source and --output are both required, or --job naming a file with them".toList)⟩
  else
    let (transfers, fetched) := fetch floats w job.source
    match fetched with
    | .error e => ⟨transfers, .dropped job.output, some (failText floats e)⟩
    | .ok bytes =>
      match w.hash with
      | .error e =>
        ⟨transfers, .dropped job.output,
          some (failText floats ("hashing what was fetched: ".toList ++ e))⟩
      | .ok () =>
        ⟨transfers, .written job.output bytes,
          some (okText floats job.output bytes (w.digestOf bytes))⟩

/-- `main`, with the small files it finds. A file that is not there is an error. -/
def helper (slips : Slips) (args : List Text) : Ran :=
  match parseArgs ⟨⟨[], [], []⟩, none⟩ none args with
  | .printed => ⟨[], .untouched, none⟩
  | .unknown arg =>
    ⟨[], .untouched, some (failText floats
      ("unknown argument ".toList ++ Turn.quoted w.isEscaped arg))⟩
  | .run args =>
    match args.jobFile with
    | none => runJob floats w args.job
    | some path =>
      match slips path with
      | none =>
        ⟨[], .untouched, some (failText floats
          ("reading the job file ".toList ++ path ++ ": ".toList ++ noFileText))⟩
      | some text =>
        match (fromStr floats text).bind jobOf with
        | none =>
          ⟨[], .untouched, some (failText floats
            ("the job file is unreadable: ".toList ++ w.unreadable text))⟩
        | some job => runJob floats w job

/-- `report`: the line goes to a temporary file that then takes the place of the report. -/
def report (slips : Slips) (args : List Text) (ran : Ran) : Slips :=
  match ran.said, reportPath args with
  | some line, some path => Function.update slips path (some line)
  | _, _ => slips

/-! ### The daemon -/

/-- A field that has a default. -/
def fieldOr {α : Type} (key : String) (read : Value D → Option α) (default : α) (v : Value D) :
    Option α :=
  match memberAt key v with
  | none => some default
  | some field => read field

/-- `serde`, of a report. -/
def fetchReportOf (v : Value D) : Option FetchReport := do
  let ok ← fieldOr "ok" Shim.asBool false v
  let error ← fieldOr "error" Value.asStr [] v
  let path ← fieldOr "path" Value.asStr [] v
  let bytes ← fieldOr "bytes" Value.asU64 0 v
  let digest ← fieldOr "digest" Value.asStr [] v
  some ⟨ok, error, path, bytes.toNat, digest⟩

/-- How asking for a helper goes. `now` is in seconds; `inTime` is a report within the hour. -/
structure System where
  bus : Bool
  now : Nat
  writeJob : Bool
  startUnit : Bool
  inTime : Bool
  spawn : Except Text Unit

/-- What came of it: the transfers, the file at the output, and the report. -/
structure Came where
  transfers : List Transfer
  output : Output
  report : FetchReport

def failedReport (error : Text) : FetchReport := ⟨false, error, [], 0, []⟩

def jobIdOf (name : Text) (now : Nat) : Text := name ++ '-' :: Text.ofNat now

def slipPath (env : Env) (jobId ext : Text) : Text := join env.stagingDir (jobId ++ '.' :: ext)

def jobValue (job : Job) : Value D :=
  object [("source", .str job.source), ("output", .str job.output), ("digest", .str job.digest)]

/-- The directory that the unit file names. -/
def unitDir : Text := "/var/lib/ai-daemon/models/staging/".toList

/-- The arguments of an instance of the unit. -/
def unitArgs (jobId : Text) : List Text := ["--job".toList, unitDir ++ jobId ++ ".job".toList]

def timedOutText (jobId : Text) : Text :=
  "ai-daemon-fetch@".toList ++ jobId ++ ".service did not finish within an hour".toList

/-- The report, once it is there. -/
def readReport (slip : Option Text) : Option FetchReport :=
  slip.map fun text => ((fromStr floats text).bind fetchReportOf).getD
    (failedReport "the fetch helper wrote an unreadable report".toList)

variable (env : Env) (sys : System) (slips : Slips) (name : Text) (job : Job)

/-- `fetch_via_systemd`. There is none where no bus is there, no job can be written or
    `systemd` does not start the unit. -/
def fetchViaSystemd : Option Came :=
  if sys.bus = false ∨ sys.writeJob = false ∨ sys.startUnit = false then none
  else
    let jobId := jobIdOf name sys.now
    let report := slipPath env jobId "report".toList
    let slips := Function.update (Function.update slips (slipPath env jobId "job".toList)
      (some (write floats (jobValue job)))) report none
    let ran := helper floats w slips (unitArgs jobId)
    let slips := if sys.inTime then Fetch.report slips (unitArgs jobId) ran else slips
    match readReport floats (slips report) with
    | some report => some ⟨ran.transfers, ran.output, report⟩
    | none => some ⟨ran.transfers, .untouched, failedReport (timedOutText jobId)⟩

def directArgs : List Text :=
  ["--source".toList, job.source, "--output".toList, job.output, "--expect-digest".toList,
    job.digest]

/-- `fetch_directly` -/
def fetchDirectly : Except Text Came :=
  match sys.spawn with
  | .error e => .error ("running the fetch helper: ".toList ++ e)
  | .ok () =>
    let ran := helper floats w slips (directArgs job)
    let stdout := (ran.said.getD []) ++ ['\n']
    match (fromStr floats stdout).bind fetchReportOf with
    | some report => .ok ⟨ran.transfers, ran.output, report⟩
    | none =>
      .error ("the fetch helper said something unreadable: ".toList ++ w.unreadable stdout)

def fetching : Except Text Came :=
  match fetchViaSystemd floats w env sys slips name job with
  | some came => .ok came
  | none => fetchDirectly floats w sys slips job

/-! ### What the network is asked for -/

def octets : List Text := ["-H".toList, "Accept: application/octet-stream".toList]

/-- A blob is asked for without a token, or with the one that its registry gave for it. -/
def Bearing (registry path : Text) (headers : List Text) : Prop :=
  headers = octets ∨ ∃ token, (registryToken floats w registry path).2 = some token ∧
    headers = octets ++ ["-H".toList, "Authorization: Bearer ".toList ++ token]

/-- A transfer that a source accounts for: the token of a registry, a blob of it by its
    digest, or the source itself. -/
inductive Pinned (source : Text) : Transfer → Prop where
  | token {registry path digest : Text} (hregistry : '/' ∉ registry)
      (hsource : source = "oci://".toList ++ registry ++ '/' :: path ++ '@' :: digest) :
      Pinned source ⟨"https://".toList ++ registry ++ "/token?service=".toList ++ registry ++
        "&scope=repository:".toList ++ path ++ ":pull".toList, [], false⟩
  | blob {registry path digest : Text} {headers : List Text} (hregistry : '/' ∉ registry)
      (hdigest : sha256 <+: digest)
      (hsource : source = "oci://".toList ++ registry ++ '/' :: path ++ '@' :: digest)
      (hheaders : Bearing floats w registry path headers) :
      Pinned source ⟨"https://".toList ++ registry ++ "/v2/".toList ++ path ++
        "/blobs/".toList ++ digest, headers, true⟩
  | itself (hsource : "https://".toList <+: source) : Pinned source ⟨source, [], true⟩

theorem fetchOci_pinned {source reference : Text}
    (hsource : source = "oci://".toList ++ reference) :
    ∀ t ∈ (fetchOci floats w reference).1, Pinned floats w source t := by
  unfold fetchOci
  cases hcut : Text.rsplitOnce ['@'] reference with
  | none => exact List.forall_mem_nil _
  | some cut =>
    obtain ⟨repository, digest⟩ := cut
    have hreference := Text.rsplitOnce_eq_some hcut
    dsimp only
    by_cases hdigest : sha256.isPrefixOf digest
    case neg =>
      rw [if_pos hdigest]
      exact List.forall_mem_nil _
    rw [if_neg (not_not.mpr hdigest)]
    cases hsplit : splitOnce '/' repository with
    | none => exact List.forall_mem_nil _
    | some parts =>
      obtain ⟨registry, path⟩ := parts
      obtain ⟨hrepository, hregistry⟩ := splitOnce_eq_some hsplit
      have hwhole : source = "oci://".toList ++ registry ++ '/' :: path ++ '@' :: digest := by
        rw [hsource, hreference, hrepository]
        simp
      have hasked : (registryToken floats w registry path).1 =
          [⟨"https://".toList ++ registry ++ "/token?service=".toList ++ registry ++
            "&scope=repository:".toList ++ path ++ ":pull".toList, [], false⟩] := rfl
      dsimp only [curl]
      rw [hasked, List.singleton_append, List.forall_mem_cons, List.forall_mem_singleton]
      refine ⟨.token hregistry hwhole,
        .blob hregistry (List.isPrefixOf_iff_prefix.mp hdigest) hwhole ?_⟩
      by_cases hempty : (registryToken floats w registry path).2.getD [] = []
      · rw [if_pos hempty, List.append_nil]
        exact .inl rfl
      · rw [if_neg hempty]
        refine .inr ⟨_, ?_, rfl⟩
        cases hfound : (registryToken floats w registry path).2 with
        | none => exact absurd (by rw [hfound]; rfl) hempty
        | some token => rfl

/-- **The network is asked only for what the source names**, over `https`: the source
    itself, or the blob with the digest in it, and a token for that, which no other registry
    is told. -/
theorem fetch_pinned (source : Text) :
    ∀ t ∈ (fetch floats w source).1, Pinned floats w source t := by
  unfold fetch
  split
  · exact List.forall_mem_nil _
  · split
    · next reference hoci =>
      exact fetchOci_pinned floats w (List.isPrefixOf?_eq_some_iff_append_eq.mp hoci).symm
    · split
      · next hhttps =>
        exact List.forall_mem_singleton.mpr (.itself (List.isPrefixOf_iff_prefix.mp hhttps))
      · split
        · exact List.forall_mem_nil _
        · exact List.forall_mem_nil _

/-- A registry that gives out a token and a blob. -/
def oneRegistry : World where
  copy _ := .error noFileText
  pull _ := .done [3]
  ask _ := some "\x7b\"token\":\"t\"\x7d".toList
  stat := .ok ()
  hash := .ok ()
  drop := .ok ()
  digestOf _ := sha256
  isEscaped _ := false
  unreadable _ := []

/-- It is asked for the blob with its token. -/
theorem blob_pinned : Pinned Audit.noFloats oneRegistry "oci://r.example/small@sha256:00".toList
    ⟨"https://r.example/v2/small/blobs/sha256:00".toList,
      octets ++ ["-H".toList, "Authorization: Bearer t".toList], true⟩ :=
  fetch_pinned Audit.noFloats oneRegistry "oci://r.example/small@sha256:00".toList _
    (by decide +kernel)

/-! ### The job is read as it was written -/

theorem parseArgs_direct (job : Job) :
    parseArgs ⟨⟨[], [], []⟩, none⟩ none (directArgs job) = .run ⟨job, none⟩ := rfl

theorem parseArgs_unit (jobId : Text) :
    parseArgs ⟨⟨[], [], []⟩, none⟩ none (unitArgs jobId) =
      .run ⟨⟨[], [], []⟩, some (unitDir ++ jobId ++ ".job".toList)⟩ := rfl

theorem jobOf_jobValue (job : Job) : jobOf (jobValue job : Value D) = some job := by
  have hsource : memberAt "source" (jobValue job : Value D) = some (.str job.source) := by
    simp [jobValue, memberAt_object]
  have houtput : memberAt "output" (jobValue job : Value D) = some (.str job.output) := by
    simp [jobValue, memberAt_object]
  have hdigest : memberAt "digest" (jobValue job : Value D) = some (.str job.digest) := by
    simp [jobValue, memberAt_object]
  rw [memberAt] at hsource houtput hdigest
  rw [jobOf, hsource, houtput, hdigest]
  rfl

variable {floats} in
theorem job_read_back (hfloats : floats.Lawful) (job : Job) :
    (fromStr floats (write floats (jobValue job))).bind jobOf = some job := by
  have hsettled : Settled 1 (jobValue job : Value D) := by
    refine settled_object ?_
    rw [List.forall_mem_cons, List.forall_mem_cons, List.forall_mem_singleton]
    exact ⟨settled_str 0 _, settled_str 0 _, settled_str 0 _⟩
  rw [hsettled.read hfloats (by decide), Option.bind_some, jobOf_jobValue]

/-! ### The report is read as it was written -/

def okMembers (output : Text) (bytes : List UInt8) (digest : Text) : List (String × Value D) :=
  [("ok", .bool true), ("path", .str output), ("bytes", number (.ofNat bytes.length)),
    ("digest", .str digest)]

def failMembers (message : Text) : List (String × Value D) :=
  [("ok", .bool false), ("error", .str message)]

theorem marks_eq :
    okMark = '\x7b' :: '"' :: (writeString "ok".toList ++
        ':' :: ("true".toList ++ ',' :: '"' :: (writeString "path".toList ++ [':']))) ∧
      bytesMark = ',' :: '"' :: (writeString "bytes".toList ++ [':']) ∧
      digestMark = ',' :: '"' :: (writeString "digest".toList ++ [':']) ∧
      failMark = '\x7b' :: '"' :: (writeString "ok".toList ++
        ':' :: ("false".toList ++ ',' :: '"' :: (writeString "error".toList ++ [':']))) := by
  decide

theorem okText_eq (output : Text) (bytes : List UInt8) (digest : Text) :
    okText floats output bytes digest = write floats (.obj
      ((okMembers output bytes digest).map fun member => (member.1.toList, member.2))) := by
  obtain ⟨hok, hbytes, hdigest, -⟩ := marks_eq
  rw [okText, hok, hbytes, hdigest]
  simp only [okMembers, List.map_cons, List.map_nil, number]
  rw [write.eq_def floats (.obj _)]
  simp only [writeMembers, write.eq_def floats (.bool _), write.eq_def floats (.num _),
    writeNumber, List.append_assoc, List.cons_append, List.nil_append]

theorem failText_eq (message : Text) :
    failText floats message = write floats (.obj
      ((failMembers message).map fun member => (member.1.toList, member.2))) := by
  obtain ⟨-, -, -, hfail⟩ := marks_eq
  rw [failText, hfail]
  simp only [failMembers, List.map_cons, List.map_nil]
  rw [write.eq_def floats (.obj _)]
  simp only [writeMembers, write.eq_def floats (.bool _), List.append_assoc, List.cons_append,
    List.nil_append]

/-- A text that the daemon reads as this report, also at the end of a line. -/
def ReadsAs (text : Text) (report : FetchReport) : Prop :=
  (fromStr floats text).bind fetchReportOf = some report ∧
    (fromStr floats (text ++ ['\n'])).bind fetchReportOf = some report

variable {floats}

theorem reads_object (hfloats : floats.Lawful) {members : List (String × Value D)}
    (hsettled : ∀ member ∈ members, Settled 0 member.2) {report : FetchReport}
    (h : fetchReportOf (object members) = some report) :
    ReadsAs floats
      (write floats (.obj (members.map fun member => (member.1.toList, member.2)))) report := by
  have hread := read_object hfloats hsettled (by decide) isBlank_nil
  have hblank : IsBlank ['\n'] := List.forall_mem_singleton.mpr (by decide)
  have hline := read_object hfloats hsettled (by decide) hblank
  rw [List.append_nil] at hread
  exact ⟨by rw [hread, Option.bind_some, h], by rw [hline, Option.bind_some, h]⟩

theorem readsAs_ok (hfloats : floats.Lawful) (output : Text) (bytes : List UInt8) (digest : Text) :
    ReadsAs floats (okText floats output bytes digest)
      ⟨true, [], output, (UInt64.ofNat bytes.length).toNat, digest⟩ := by
  rw [okText_eq]
  refine reads_object hfloats ?_ ?_
  · rw [okMembers, List.forall_mem_cons, List.forall_mem_cons, List.forall_mem_cons,
      List.forall_mem_singleton]
    exact ⟨settled_bool 0 _, settled_str 0 _, settled_num 0 _, settled_str 0 _⟩
  · simp [fetchReportOf, fieldOr, okMembers, memberAt_object]
    rfl

theorem readsAs_fail (hfloats : floats.Lawful) (message : Text) :
    ReadsAs floats (failText floats message) (failedReport message) := by
  rw [failText_eq]
  refine reads_object hfloats ?_ ?_
  · rw [failMembers, List.forall_mem_cons, List.forall_mem_singleton]
    exact ⟨settled_bool 0 _, settled_str 0 _⟩
  · simp [fetchReportOf, fieldOr, failMembers, memberAt_object]
    rfl

/-! ### The files in the staging directory -/

/-- An extension is replaced, whatever dots stand before it. -/
theorem withExtension_append {folder stem old new : Text} (hstem : stem ≠ [])
    (hslash : '/' ∉ stem ++ '.' :: old) (hdot : '.' ∉ old) :
    withExtension (folder ++ '/' :: (stem ++ '.' :: old)) new =
      folder ++ '/' :: (stem ++ '.' :: new) := by
  obtain ⟨hfile, hfolder⟩ := fileOf_append folder hslash
  rw [withExtension, hfile, hfolder, Text.rsplitOnce_char_append stem hdot]
  dsimp only
  rw [if_neg hstem]
  simp

/-- An id of a job is the name of a file. -/
structure Plainly (jobId : Text) : Prop where
  ne_nil : jobId ≠ []
  slash : '/' ∉ jobId

theorem jobIdOf_plainly {name : Text} (h : usableName name) (now : Nat) :
    Plainly (jobIdOf name now) := by
  rw [usableName, Bool.and_eq_true, Bool.and_eq_true] at h
  have hall := List.all_eq_true.mp h.1.2
  refine ⟨by simp [jobIdOf], ?_⟩
  rw [jobIdOf, List.mem_append, List.mem_cons, not_or, not_or]
  refine ⟨fun hmem => isNameChar_ne_slash (hall _ hmem) rfl, by decide, ?_⟩
  exact Identity.not_mem_ofNat (by decide) now

/-- The state directory as it is packaged. -/
def packagedRoot : Text := "/var/lib/ai-daemon/models".toList

/-- Its staging directory. -/
def packagedStaging : Text := "/var/lib/ai-daemon/models/staging".toList

theorem slipPath_packaged {env : Env} (hroot : env.root = packagedRoot) {jobId : Text}
    (h : Plainly jobId) (ext : Text) :
    slipPath env jobId ext = packagedStaging ++ '/' :: (jobId ++ '.' :: ext) := by
  have hdir : env.stagingDir = packagedStaging := by
    rw [Env.stagingDir, hroot]
    decide
  have hrelative : ¬ isAbsolute (jobId ++ '.' :: ext) = true := by
    obtain ⟨c, cs, rfl⟩ := List.exists_cons_of_ne_nil h.ne_nil
    have hc : c ≠ '/' := by
      rintro rfl
      exact h.slash List.mem_cons_self
    simpa [isAbsolute] using hc
  have hlast : ¬ (packagedStaging = [] ∨ packagedStaging.getLast? = some '/') := by decide
  rw [slipPath, hdir, join, if_neg hrelative, if_neg hlast]

/-- The unit is given the job that the daemon has written, and leaves its report where the
    daemon looks for it. -/
theorem unit_paths {env : Env} (hroot : env.root = packagedRoot) {jobId : Text}
    (h : Plainly jobId) :
    unitDir ++ jobId ++ ".job".toList = slipPath env jobId "job".toList ∧
      reportPath (unitArgs jobId) = some (slipPath env jobId "report".toList) := by
  have hjob : unitDir ++ jobId ++ ".job".toList =
      packagedStaging ++ '/' :: (jobId ++ '.' :: "job".toList) := by
    have hdir : unitDir = packagedStaging ++ ['/'] := by decide
    have hext : ".job".toList = '.' :: "job".toList := by decide
    rw [hdir, hext]
    simp
  have hreport : reportPath (unitArgs jobId) =
      some (withExtension (unitDir ++ jobId ++ ".job".toList) "report".toList) := rfl
  have hslash : '/' ∉ jobId ++ '.' :: "job".toList := by
    rw [List.mem_append, not_or]
    exact ⟨h.slash, by decide⟩
  rw [slipPath_packaged hroot h, slipPath_packaged hroot h, hreport, hjob,
    withExtension_append h.ne_nil hslash (by decide)]
  exact ⟨rfl, rfl⟩

theorem slipPath_ne {env : Env} (hroot : env.root = packagedRoot) {jobId : Text}
    (h : Plainly jobId) : slipPath env jobId "job".toList ≠ slipPath env jobId "report".toList := by
  rw [slipPath_packaged hroot h, slipPath_packaged hroot h]
  intro heq
  have hsame := List.append_cancel_left heq
  have hext := List.append_cancel_left (List.cons.inj hsame).2
  revert hext
  decide

/-! ### What the daemon hears -/

/-- What there is to hear of a job. -/
def told (floats : Floats D) (w : World) (job : Job) : FetchReport :=
  if job.source = [] ∨ job.output = [] then
    failedReport "--source and --output are both required, or --job naming a file with them".toList
  else
    match (fetch floats w job.source).2, w.hash with
    | .error e, _ => failedReport e
    | .ok _, .error e => failedReport ("hashing what was fetched: ".toList ++ e)
    | .ok bytes, .ok () =>
      ⟨true, [], job.output, (UInt64.ofNat bytes.length).toNat, w.digestOf bytes⟩

theorem runJob_said (hfloats : floats.Lawful) (job : Job) :
    ∃ text, (runJob floats w job).said = some text ∧ ReadsAs floats text (told floats w job) := by
  unfold runJob told
  split
  · exact ⟨_, rfl, readsAs_fail hfloats _⟩
  · generalize fetch floats w job.source = outcome
    obtain ⟨transfers, fetched⟩ := outcome
    cases fetched with
    | error e => exact ⟨_, rfl, readsAs_fail hfloats e⟩
    | ok bytes =>
      cases w.hash with
      | error e => exact ⟨_, rfl, readsAs_fail hfloats _⟩
      | ok => exact ⟨_, rfl, readsAs_ok hfloats job.output bytes (w.digestOf bytes)⟩

/-- `systemd` is asked, and starts the unit. -/
def System.starts (sys : System) : Bool := sys.bus && sys.writeJob && sys.startUnit

/-- The daemon hears from the helper. -/
def System.hears (sys : System) : Bool :=
  if sys.starts then sys.inTime else works sys.spawn

theorem viaSystemd_starts (hfloats : floats.Lawful) {sys : System} (hstarts : sys.starts = true)
    (hroot : env.root = packagedRoot) (hname : usableName name) :
    fetchViaSystemd floats w env sys slips name job =
      some ⟨(runJob floats w job).transfers,
        if sys.inTime then (runJob floats w job).output else .untouched,
        if sys.inTime then told floats w job
        else failedReport (timedOutText (jobIdOf name sys.now))⟩ := by
  have hplainly := jobIdOf_plainly hname sys.now
  obtain ⟨hjob, hreport⟩ := unit_paths hroot hplainly
  have hasked : ¬ (sys.bus = false ∨ sys.writeJob = false ∨ sys.startUnit = false) := by
    rw [System.starts, Bool.and_eq_true, Bool.and_eq_true] at hstarts
    simp [hstarts]
  rw [fetchViaSystemd, if_neg hasked]
  dsimp only
  generalize hslips : Function.update (Function.update slips _ _) _ _ = left
  have hthere : left (slipPath env (jobIdOf name sys.now) "job".toList) =
      some (write floats (jobValue job)) := by
    rw [← hslips, Function.update_of_ne (slipPath_ne hroot hplainly), Function.update_self]
  have hnone : left (slipPath env (jobIdOf name sys.now) "report".toList) = none := by
    rw [← hslips, Function.update_self]
  have hran : helper floats w left (unitArgs (jobIdOf name sys.now)) = runJob floats w job := by
    rw [helper, parseArgs_unit, hjob]
    dsimp only
    rw [hthere]
    dsimp only
    rw [job_read_back hfloats job]
  obtain ⟨text, hsaid, hreads, -⟩ := runJob_said w hfloats job
  rw [hran]
  cases sys.inTime with
  | true =>
    have hthere : Fetch.report left (unitArgs (jobIdOf name sys.now)) (runJob floats w job)
        (slipPath env (jobIdOf name sys.now) "report".toList) = some text := by
      rw [Fetch.report, hsaid, hreport]
      exact Function.update_self ..
    simp only [if_true, hthere, readReport, Option.map_some, hreads, Option.getD_some]
  | false =>
    simp only [Bool.false_eq_true, if_false, hnone, readReport, Option.map_none]

/-- **What is fetched is what was meant, and is heard of as it was**: by way of `systemd`
    or directly, the helper runs on the daemon's job, and the daemon reads its report. -/
theorem heard_as_fetched (hfloats : floats.Lawful) (hname : usableName name)
    (hroot : sys.starts = true → env.root = packagedRoot) :
    (sys.hears = true → fetching floats w env sys slips name job =
        .ok ⟨(runJob floats w job).transfers, (runJob floats w job).output, told floats w job⟩) ∧
      (sys.hears = false → ∀ came, fetching floats w env sys slips name job = .ok came →
        came.output = .untouched ∧
          came.report = failedReport (timedOutText (jobIdOf name sys.now))) := by
  cases hstarts : sys.starts with
  | true =>
    have hvia := viaSystemd_starts w env slips name job hfloats hstarts (hroot hstarts) hname
    have hhears : sys.hears = sys.inTime := if_pos hstarts
    rw [fetching, hvia, hhears]
    constructor
    · intro hin
      rw [hin, if_pos rfl, if_pos rfl]
    · intro hlate came hcame
      rw [hlate] at hcame
      cases hcame
      exact ⟨rfl, rfl⟩
  | false =>
    have hnot : sys.bus = false ∨ sys.writeJob = false ∨ sys.startUnit = false := by
      rw [System.starts, Bool.and_eq_false_iff, Bool.and_eq_false_iff] at hstarts
      exact or_assoc.mp hstarts
    have hvia : fetchViaSystemd floats w env sys slips name job = none := if_pos hnot
    have hhears : sys.hears = works sys.spawn := if_neg (by rw [hstarts]; exact Bool.false_ne_true)
    have hran : helper floats w slips (directArgs job) = runJob floats w job := by
      rw [helper, parseArgs_direct]
    obtain ⟨text, hsaid, -, hreads⟩ := runJob_said w hfloats job
    rw [fetching, hvia, hhears]
    dsimp only
    rw [fetchDirectly]
    cases sys.spawn with
    | error e =>
      constructor
      · rintro ⟨⟩
      · rintro - came ⟨⟩
    | ok =>
      refine ⟨fun _ => ?_, by rintro ⟨⟩⟩
      simp only [hran, hsaid, Option.getD_some, hreads]

end AiDaemon.Fetch
