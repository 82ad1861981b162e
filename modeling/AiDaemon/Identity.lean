import AiDaemon.Text

/-!
# Who is asking (`identity.rs`)

An identity is what the kernel says about a pid, read out of `/proc`, and the
string `key` that grants, rates and session counts are filed under.  The files
are a parameter: `Host` holds the text of the ones the daemon reads, and every
function of the source that opens a file takes it.

The part with logic in it is `unitFromCgroup`, which turns the cgroup path of a
process into a name.  The path's components are chosen by whoever starts the
process, so `normaliseUnit` is where a user's text becomes an identity.
-/

namespace AiDaemon

namespace Identity

inductive Class where
  | portal
  | native
  | shim
deriving DecidableEq, Repr

end Identity

structure Identity where
  cls : Identity.Class
  uid : UInt32
  gid : UInt32
  pid : Int32
  unit : Option Text
  appId : Option Text
  exe : Option Text
  client : Option Text
  attested : Bool
deriving DecidableEq, Repr

/-- The files the daemon reads about its callers, where it can read them.
    `exe` is the target of the `/proc/<pid>/exe` link. -/
structure Host where
  cgroup : Int32 → Option Text
  exe : Int32 → Option Text
  status : Int32 → Option Text
  passwd : Option Text
  group : Option Text

namespace Identity

/-! ### Keys -/

def atUid (uid : UInt32) : Text := '@' :: Text.ofNat uid.toNat

/-- The string grants are keyed by. -/
def key (identity : Identity) : Text :=
  match identity.cls with
  | .portal => "portal:".toList ++ identity.appId.getD "unknown".toList
  | .native =>
    match identity.unit, identity.exe with
    | some unit, _ => "unit:".toList ++ unit ++ atUid identity.uid
    | none, some exe => "exe:".toList ++ exe ++ atUid identity.uid
    | none, none => "uid:".toList ++ Text.ofNat identity.uid.toNat
  | .shim =>
    match identity.client, identity.attested, identity.unit, identity.exe with
    | some client, _, _, _ => "shim:".toList ++ client
    | none, true, some unit, _ => "shim:unit:".toList ++ unit ++ atUid identity.uid
    | none, true, none, some exe => "shim:".toList ++ exe ++ atUid identity.uid
    | none, _, _, _ => "shim:uid:".toList ++ Text.ofNat identity.uid.toNat

/-! ### Units -/

/-- A pid or a random number: all digits, or six or more hex digits. -/
def isLaunchToken (part : Text) : Bool :=
  part ≠ [] && (part.all Char.isDigit || (6 ≤ part.byteLen && part.all Text.isHexDigit))

def uuidGroups : List Nat := [8, 4, 4, 4, 12]

def isUuidGroup (part : Text) (width : Nat) : Bool :=
  part.byteLen = width && part.all Text.isHexDigit

/-- `strip_launch_uuid`. The byte index it cuts at lies before 37 ASCII
    characters, so it is a character index too. -/
def stripLaunchUuid (name : Text) : Option Text :=
  let parts := name.splitOn '-'
  if parts.length ≤ uuidGroups.length then none
  else
    let tail := parts.drop (parts.length - uuidGroups.length)
    if (tail.zip uuidGroups).all fun (part, width) => isUuidGroup part width then
      some (name.take (name.length - (uuidGroups.sum + uuidGroups.length)))
    else none

/-- The trailing launch token comes off when something is left before it. -/
def popLaunchToken (parts : List Text) : List Text :=
  if 1 < parts.length ∧ (parts.getLast?.any isLaunchToken) then parts.dropLast else parts

/-- The leading launcher comes off when a dotted application id follows. -/
def removeLauncher : List Text → List Text
  | first :: second :: rest =>
    if first.contains '.' = false ∧ (second :: rest).any (fun part => part.contains '.') then
      second :: rest
    else first :: second :: rest
  | parts => parts

def joinDash (parts : List Text) : Text := ['-'].intercalate parts

/-- The arms of `normalise_unit` for a component that is `name.scope`. -/
def normaliseScope (component name : Text) : Option Text :=
  if "vte-spawn-".toList.isPrefixOf name ∨ "session-".toList.isPrefixOf name ∨
      name = "init".toList then none
  else if "snap.".toList.isPrefixOf name then some ((stripLaunchUuid name).getD name)
  else
    match "app-airun-".toList.isPrefixOf? name with
    | some body => some (joinDash (popLaunchToken (body.splitOn '-')))
    | none =>
      match "app-".toList.isPrefixOf? name with
      | none => some component
      | some body =>
        let parts := removeLauncher (popLaunchToken (body.splitOn '-'))
        if parts = [] then some component else some (joinDash parts)

def normaliseUnit (component : Text) : Option Text :=
  match ".service".toList.isSuffixOf? component with
  | some name => if "user@".toList.isPrefixOf name then none else some component
  | none => (".scope".toList.isSuffixOf? component).bind (normaliseScope component)

/-- What is left of a line once its hierarchy and controller fields are off. -/
def cgroupPath (line : Text) : Text :=
  let path := ((Text.rsplitOnce "::".toList line).map Prod.snd).getD line
  ((Text.rsplitOnce [':'] path).map Prod.snd).getD path

/-- `unit_from_cgroup`: the innermost component that names something. -/
def unitFromCgroup (text : Text) : Option Text :=
  text.lines.findSome? fun line => ((cgroupPath line).splitOn '/').reverse.findSome? normaliseUnit

def unitOfPid (host : Host) (pid : Int32) : Option Text := (host.cgroup pid).bind unitFromCgroup

/-- `Path::file_name`: the last component, unless it is `..`. -/
def fileName (path : Text) : Option Text :=
  ((path.splitOn '/').filter fun part => part ≠ [] ∧ part ≠ ['.']).getLast?.filter
    fun part => part ≠ ['.', '.']

def exeOfPid (host : Host) (pid : Int32) : Option Text := (host.exe pid).bind fileName

def fromPidUid (host : Host) (pid : Int32) (uid gid : UInt32) (cls : Class) : Identity where
  cls
  uid
  gid
  pid
  unit := unitOfPid host pid
  appId := none
  exe := exeOfPid host pid
  client := none
  attested := false

/-! ### Users and groups -/

def parseId (s : Text) : Option UInt32 := s.parseU32.map UInt32.ofNat

/-- `field_two`: the third field of the first line that starts with the name. -/
def fieldTwo (text name : Text) : Option UInt32 :=
  (text.lines.find? fun line => (line.splitOn ':').head? = some name).bind fun line =>
    (line.splitOn ':')[2]?.bind parseId

def uidOfUser (host : Host) (name : Text) : Option UInt32 := host.passwd.bind (fieldTwo · name)

def gidOfGroup (host : Host) (name : Text) : Option UInt32 := host.group.bind (fieldTwo · name)

def groupsOfLine (line : Text) : List UInt32 :=
  (match "Gid:".toList.isPrefixOf? line with
    | some rest => ((Text.splitWhitespace rest).head?.bind parseId).toList
    | none => []) ++
  match "Groups:".toList.isPrefixOf? line with
    | some rest => (Text.splitWhitespace rest).filterMap parseId
    | none => []

/-- `groups_of_pid`: the primary gid and the supplementary set, from
    `/proc/<pid>/status`. -/
def groupsOfPid (host : Host) (pid : Int32) : List UInt32 :=
  match host.status pid with
  | some status => status.lines.flatMap groupsOfLine
  | none => []

end Identity

end AiDaemon
