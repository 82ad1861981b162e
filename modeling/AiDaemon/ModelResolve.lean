import AiDaemon.AuditRun
import AiDaemon.Registry

/-!
# Resolving a model (`registry.rs`: `resolve`)

A client's name goes through the aliases once and is then made into a path, in
the caller's own store first and in the system's after it.  Which files are read
as manifests is part of the result here.

The name is not looked at before it becomes a path, and what the manifest that is
found calls itself is not compared with it.  When all the files read lie in the
directories of manifests, and the model returned is the one asked for, is
`resolve_confined_iff`.  The home directory of a user is meant to be read from
the sixth field of its line of `/etc/passwd`; `home_of_uid` takes the fifth.
-/

namespace AiDaemon.ModelResolve

open Ledger Registry UnixPath

/-- The files by the path they are opened by, and what is read from texts. -/
structure Disk where
  cwd : List Text
  file : Text → Option (List UInt8)
  manifestOf : Text → Option Registry.Manifest
  aliasesOf : Text → Option (Table Text Text)

def Disk.readToString (disk : Disk) (path : Text) : Option Text :=
  (disk.file path).bind fun bytes => (Audit.readToString bytes).toOption

structure Settings where
  systemRoot : Text
  configAliases : Table Text Text
  isEscaped : Char → Bool

inductive StoreKind where
  | system
  | user
deriving DecidableEq, Repr

structure Resolved where
  manifest : Registry.Manifest
  blob : Text
  store : StoreKind
deriving DecidableEq, Repr

/-! ### Homes -/

def passwd : Text := "/etc/passwd".toList

/-- The first line with the user's id; a line whose id is no number ends the search. -/
def homeIn (uid : UInt32) : List Text → Option Text
  | [] => none
  | line :: lines =>
    match line.splitOn ':' with
    | _name :: _pw :: entryUid :: fields =>
      match Text.parseU32 entryUid with
      | none => none
      | some entry =>
        if entry = uid.toNat then
          fields[1]?.filter fun home => home ≠ [] ∧ home ≠ ['/']
        else homeIn uid lines
    | _ => none

/-- `home_of_uid` -/
def Disk.homeOfUid (disk : Disk) (uid : UInt32) : Option Text :=
  (disk.readToString passwd).bind fun text => homeIn uid text.lines

def userModels : Text := ".local/share/ai-daemon/models".toList

def Disk.userRoot (disk : Disk) (uid : UInt32) : Option Text :=
  (disk.homeOfUid uid).map fun home => join home userModels

/-! ### Manifests and aliases -/

def manifestsIn (root : Text) : Text := join root "manifests".toList

def manifestPath (root name : Text) : Text := join (manifestsIn root) (name ++ json)

/-- `read_manifest` -/
def Disk.readManifest (disk : Disk) (path : Text) : Option Registry.Manifest :=
  (disk.readToString path).bind disk.manifestOf

/-- `read_aliases` -/
def Disk.readAliases (disk : Disk) (root : Text) : Table Text Text :=
  ((disk.readToString (join root "aliases.json".toList)).bind disk.aliasesOf).getD ∅

/-- `resolve_alias` -/
def resolveAlias (settings : Settings) (disk : Disk) (name : Text) (uid : Option UInt32) :
    Option Text :=
  let fromUser := (uid.bind disk.userRoot).bind fun root => (disk.readAliases root).lookup name
  fromUser.or ((settings.configAliases.lookup name).or
    ((disk.readAliases settings.systemRoot).lookup name))

/-- What a name stands for, after one hop. -/
def targetOf (settings : Settings) (disk : Disk) (name : Text) (uid : Option UInt32) : Text :=
  (resolveAlias settings disk name uid).getD name

def blobPath (isEscaped : Char → Bool) (root digest : Text) : Except Text Text :=
  (hexOf isEscaped digest).map fun hex => join (join root "blobs/sha256".toList) hex

def blobFor (isEscaped : Char → Bool) (root : Text) (manifest : Registry.Manifest) :
    Except Text Text :=
  if manifest.isRemote then .ok [] else blobPath isEscaped root manifest.digest

def noModelHereText (isEscaped : Char → Bool) (target : Text) : Text :=
  "no model named ".toList ++ Turn.quoted isEscaped target ++ " in this install".toList

/-! ### Resolving -/

/-- A manifest that has been found, with its weights. -/
def resolved (isEscaped : Char → Bool) (root : Text) (store : StoreKind)
    (manifest : Registry.Manifest) :
    Except Text Resolved :=
  (blobFor isEscaped root manifest).map fun blob => ⟨manifest, blob, store⟩

/-- The paths that are read as manifests, and the model. -/
def resolve (settings : Settings) (disk : Disk) (name : Text) (uid : Option UInt32) :
    List Text × Except Text Resolved :=
  let target := targetOf settings disk name uid
  let path := manifestPath settings.systemRoot target
  let fromSystem :=
    match disk.readManifest path with
    | some manifest => resolved settings.isEscaped settings.systemRoot .system manifest
    | none => .error (noModelHereText settings.isEscaped target)
  match uid.bind disk.userRoot with
  | none => ([path], fromSystem)
  | some root =>
    match disk.readManifest (manifestPath root target) with
    | some manifest => ([manifestPath root target], resolved settings.isEscaped root .user manifest)
    | none => ([manifestPath root target, path], fromSystem)

/-! ### Where it may read -/

/-- The sixth field of the first line that has the user's id. -/
def homeDirectoryIn (uid : UInt32) : List Text → Option Text
  | [] => none
  | line :: lines =>
    match line.splitOn ':' with
    | _name :: _pw :: entryUid :: _gid :: _gecos :: home :: _ =>
      if Text.parseU32 entryUid = some uid.toNat then
        (some home).filter fun home => home ≠ [] ∧ home ≠ ['/']
      else homeDirectoryIn uid lines
    | _ => homeDirectoryIn uid lines

/-- The directories of manifests: the system's, and the one in the caller's home. -/
def manifestDirs (settings : Settings) (disk : Disk) (uid : Option UInt32) : List (List Text) :=
  let home := uid.bind fun uid =>
    (disk.readToString passwd).bind fun text => homeDirectoryIn uid text.lines
  UnixPath.resolve disk.cwd (manifestsIn settings.systemRoot) ::
    (home.map fun home =>
      UnixPath.resolve disk.cwd (manifestsIn (join home userModels))).toList

/-- Every file that is read as a manifest lies directly in a directory of manifests, and
    a model that is returned has the name that was asked for. -/
def Confined (settings : Settings) (disk : Disk) (name : Text) (uid : Option UInt32) : Prop :=
  (∀ path ∈ (resolve settings disk name uid).1, (disk.file path).isSome →
    ∃ dir ∈ manifestDirs settings disk uid, EntryOf dir (UnixPath.resolve disk.cwd path)) ∧
  ∀ r, (resolve settings disk name uid).2 = .ok r →
    r.manifest.name = targetOf settings disk name uid

/-! ### When it stays there -/

variable (settings : Settings) (disk : Disk) (uid : Option UInt32)

/-- If a store has a file for the target, what comes before the target's last slash
    leads back to a directory of manifests. -/
def Stays (root target : Text) : Prop :=
  (disk.file (manifestPath root target)).isSome →
    UnixPath.resolve disk.cwd (join (manifestsIn root) (folderOf target)) ∈
      manifestDirs settings disk uid

/-- The manifest that a store has for the target is the target's, or names weights that
    cannot be. -/
def NamedSo (root target : Text) : Prop :=
  ∀ m ∈ disk.readManifest (manifestPath root target),
    m.name = target ∨ ¬ m.isRemote ∧ ∀ hex, hexOf settings.isEscaped m.digest ≠ .ok hex

/-- Both, for the caller's store and, if that has no manifest, for the system's. -/
def Straight (name : Text) : Prop :=
  let target := targetOf settings disk name uid
  (∀ root ∈ uid.bind disk.userRoot, Stays settings disk uid root target ∧
    NamedSo settings disk root target) ∧
  ((∀ root ∈ uid.bind disk.userRoot, disk.readManifest (manifestPath root target) = none) →
    Stays settings disk uid settings.systemRoot target ∧
      NamedSo settings disk settings.systemRoot target)

theorem json_length : json.length = 5 := by decide

theorem plain_json (target : Text) : Plain (fileOf target ++ json) := by
  have hlength : 5 ≤ (fileOf target ++ json).length := by
    rw [List.length_append, json_length]
    exact Nat.le_add_left 5 _
  refine ⟨?_, ?_, ?_, ?_⟩
  · rw [List.mem_append, not_or]
    exact ⟨slash_not_mem_fileOf target, by decide⟩
  all_goals
    intro heq
    rw [heq] at hlength
    exact absurd hlength (by decide)

/-- A name leads to an entry of where its folder leads. -/
theorem manifestPath_resolve (cwd : List Text) (root target : Text) :
    UnixPath.resolve cwd (manifestPath root target) =
      UnixPath.resolve cwd
        (join (manifestsIn root) (folderOf target)) ++ [fileOf target ++ json] := by
  rw [manifestPath, resolve_join, resolve_append _ _ _ (plain_json target), resolve_join]

theorem stays_iff (root target : Text) :
    ((disk.file (manifestPath root target)).isSome → ∃ dir ∈ manifestDirs settings disk uid,
      EntryOf dir (UnixPath.resolve disk.cwd (manifestPath root target))) ↔
        Stays settings disk uid root target := by
  rw [Stays]
  refine imp_congr_right fun _ => ?_
  rw [manifestPath_resolve]
  constructor
  · rintro ⟨dir, hdir, hentry⟩
    rwa [(entryOf_append _ _ _).mp hentry]
  · intro hdir
    exact ⟨_, hdir, (entryOf_append _ _ _).mpr rfl⟩

/-- A target without slashes stays in the system's store. -/
theorem stays_of_no_slash {target : Text} (h : '/' ∉ target) :
    Stays settings disk uid settings.systemRoot target := by
  intro _
  rw [folderOf_eq_nil h, resolve_join]
  exact List.mem_cons_self

theorem resolved_iff (root target : Text) (store : StoreKind) (m : Registry.Manifest) :
    (∀ r, resolved settings.isEscaped root store m = .ok r → r.manifest.name = target) ↔
      m.name = target ∨ ¬ m.isRemote ∧ ∀ hex, hexOf settings.isEscaped m.digest ≠ .ok hex := by
  rw [resolved, blobFor]
  by_cases hremote : m.isRemote
  · rw [if_pos hremote]
    constructor
    · intro h
      exact .inl (h _ rfl)
    · rintro (hname | ⟨hlocal, -⟩) r hr
      · cases hr
        exact hname
      · exact absurd hremote hlocal
  · rw [if_neg hremote, blobPath]
    cases hhex : hexOf settings.isEscaped m.digest with
    | error e =>
      constructor
      · intro _
        exact .inr ⟨hremote, fun hex heq => nomatch heq⟩
      · intro _ r hr
        cases hr
    | ok hex =>
      constructor
      · intro h
        exact .inl (h _ rfl)
      · rintro (hname | ⟨-, hnone⟩) r hr
        · cases hr
          exact hname
        · exact absurd rfl (hnone hex)

/-- What one store says of a target, when it is the one that is read. -/
theorem store_iff (root target : Text) (store : StoreKind) {m : Registry.Manifest}
    (hread : disk.readManifest (manifestPath root target) = some m) :
    (∀ r, resolved settings.isEscaped root store m = .ok r → r.manifest.name = target) ↔
      NamedSo settings disk root target := by
  rw [resolved_iff, NamedSo, hread]
  constructor
  · rintro h _ ⟨⟩
    exact h
  · intro h
    exact h m rfl

/-- The system's store, when it is asked. -/
theorem system_iff (target : Text) :
    (∀ r, (match disk.readManifest (manifestPath settings.systemRoot target) with
        | some m => resolved settings.isEscaped settings.systemRoot .system m
        | none => .error (noModelHereText settings.isEscaped target)) = .ok r →
      r.manifest.name = target) ↔ NamedSo settings disk settings.systemRoot target := by
  cases hread : disk.readManifest (manifestPath settings.systemRoot target) with
  | some m => exact store_iff settings disk _ target .system hread
  | none =>
    constructor
    · intro _ m hm
      rw [hread] at hm
      cases hm
    · intro _ r hr
      cases hr

/-- **Resolving is confined, and returns what was asked for**, exactly if the target's
    folders lead back to the manifests and the manifest found is the target's. -/
theorem resolve_confined_iff (name : Text) :
    Confined settings disk name uid ↔ Straight settings disk uid name := by
  rw [Confined, Straight, resolve]
  generalize targetOf settings disk name uid = target
  cases huser : uid.bind disk.userRoot with
  | none =>
    dsimp only
    rw [List.forall_mem_singleton, stays_iff, system_iff]
    constructor
    · intro h
      exact ⟨fun root hroot => (nomatch hroot), fun _ => h⟩
    · rintro ⟨-, h⟩
      exact h fun root hroot => (nomatch hroot)
  | some root =>
    have hall : ∀ P : Text → Prop, (∀ r ∈ some root, P r) ↔ P root := by
      intro P
      simp
    dsimp only
    rw [hall, hall]
    cases hread : disk.readManifest (manifestPath root target) with
    | some m =>
      dsimp only
      rw [List.forall_mem_singleton, stays_iff, store_iff settings disk root target .user hread]
      constructor
      · intro h
        exact ⟨h, fun hnone => (nomatch hnone)⟩
      · rintro ⟨h, -⟩
        exact h
    | none =>
      dsimp only
      rw [List.forall_mem_cons, List.forall_mem_singleton, stays_iff, stays_iff, system_iff]
      have hnamed : NamedSo settings disk root target := by
        intro m hm
        rw [hread] at hm
        cases hm
      constructor
      · rintro ⟨⟨huserStays, hstays⟩, hsystem⟩
        exact ⟨⟨huserStays, hnamed⟩, fun _ => ⟨hstays, hsystem⟩⟩
      · rintro ⟨⟨huserStays, -⟩, h⟩
        exact ⟨⟨huserStays, (h rfl).1⟩, (h rfl).2⟩

/-! ### A name with dots -/

def evilPath : Text := "/var/lib/ai-daemon/models/manifests/../../../../../tmp/evil.json".toList

/-- A machine with one file, which somebody has put under `/tmp`. -/
def oneFile : Disk where
  cwd := []
  file path := if path = evilPath then some [0x7b, 0x7d] else none
  manifestOf _ :=
    some ⟨"small".toList, "remote:small".toList, remoteFormat, [], [], .none, [], [], []⟩
  aliasesOf _ := none

def plainSettings : Settings where
  systemRoot := "/var/lib/ai-daemon/models".toList
  configAliases := ∅
  isEscaped _ := false

/-- A name that goes up to the root is read there. -/
theorem resolve_leaves :
    ¬ Confined plainSettings oneFile "../../../../../tmp/evil".toList (some 1000) := by
  rintro ⟨hread, -⟩
  have hpath := hread evilPath (by decide +kernel) (by decide +kernel)
  obtain ⟨dir, hdir, hentry⟩ := hpath
  revert hentry
  revert dir
  decide +kernel

end AiDaemon.ModelResolve
