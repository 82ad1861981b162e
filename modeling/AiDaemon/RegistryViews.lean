import AiDaemon.ByKey
import AiDaemon.Install
import AiDaemon.ModelResolve
import AiDaemon.RegistryBlobs

/-!
# The views of the registry (`registry.rs`: `list`, `aliases`, `resolve_alias`, `resolve`)

The manifests are listed by way of the cache and resolved from their files; the
aliases are looked up one store after the other, and listed by laying one map
over the other.  The store is that of `Registry`, and what is read of it by path
is a `Disk` of `ModelResolve`.

A name that `install` accepts is a type of its own here, and so is a manifest
with such a name.  What other programs do to the files around the store is an
act too; `aliases.json` is nobody's but the registry's.

A staged file is only asked to begin with the staging directory.  A path that
leads from there to a manifest has that manifest moved or removed, and unless a
new one is written after it the cache goes on listing it (`views_agree_iff`).
-/

namespace AiDaemon.RegistryViews

open Ledger Registry UnixPath ModelResolve Transition

/-- What is written as JSON, and what is read back. -/
structure Formats where
  manifestText : Registry.Manifest → Text
  manifestOf : Text → Option Registry.Manifest
  aliasText : Table Text Text → Text
  aliasesOf : Text → Option (Table Text Text)
  manifest_read : ∀ m, manifestOf (manifestText m) = some m
  aliases_read : ∀ aliases, aliasesOf (aliasText aliases) = some aliases

/-- A machine, and the aliases of its configuration. -/
structure Machine where
  cwd : List Text
  root : Text
  digestOf : List UInt8 → Text
  isEscaped : Char → Bool
  formats : Formats
  configAliases : Table Text Text
  config_usable : ∀ name target,
    configAliases.lookup name = some target → Install.usableName target = true

structure ModelName where
  text : Text
  usable : Install.usableName text = true

structure NamedManifest where
  manifest : Registry.Manifest
  usable : Install.usableName manifest.name = true

variable (host : Machine)

def Machine.env : Env where
  cwd := host.cwd
  root := host.root
  digestOf := host.digestOf
  textOf m := Audit.asBytes (host.formats.manifestText m)
  manifestOf bytes := (Audit.readToString bytes).toOption.bind host.formats.manifestOf
  isEscaped := host.isEscaped

@[simp] theorem env_cwd : host.env.cwd = host.cwd := rfl

def Machine.settings : Settings := ⟨host.root, host.configAliases, host.isEscaped⟩

def Machine.disk (st : Store) : Disk where
  cwd := host.cwd
  file path := st.bytesAt host.env path
  manifestOf := host.formats.manifestOf
  aliasesOf := host.formats.aliasesOf

def Machine.aliasesPath : Text := join host.root "aliases.json".toList

def Machine.aliasesPlace : List Text := UnixPath.resolve host.cwd host.aliasesPath

/-! ### Listing -/

/-- A file of a directory that is read as a manifest. -/
def isManifestFile (dir file : List Text) : Bool :=
  match file.getLast? with
  | none => false
  | some name =>
    decide (file.dropLast = dir) && (json.isSuffixOf? name).any fun stem => decide (stem ≠ [])

/-- `read_manifests` -/
def Machine.readManifests (st : Store) (path : Text) : List Registry.Manifest :=
  let dir := UnixPath.resolve host.cwd path
  if dir = UnixPath.resolve host.cwd host.env.manifestsDir then st.readManifests
  else
    ((st.files.keys.filter (isManifestFile dir)).filterMap fun file =>
      (st.files.lookup file).bind host.env.manifestOf).mergeSort Registry.Manifest.le

def entryName (entry : Registry.Manifest × StoreKind) : Text := entry.1.name

/-- `list`, and the store with what is in the cache after it. -/
def Machine.list (st : Store) (uid : Option UInt32) :
    List (Registry.Manifest × StoreKind) × Store :=
  let (system, st) := systemManifests st
  let byName := ByKey.insertAll entryName [] (system.map fun m => (m, .system))
  match uid.bind (host.disk st).userRoot with
  | none => (byName, st)
  | some root =>
    (ByKey.insertAll entryName byName
      ((host.readManifests st (manifestsIn root)).map fun m => (m, .user)), st)

/-! ### Aliases -/

/-- `aliases` -/
def Machine.aliases (st : Store) (uid : Option UInt32) : Table Text Text :=
  let all := extend ((host.disk st).readAliases host.root) host.configAliases
  match uid.bind (host.disk st).userRoot with
  | none => all
  | some root => extend all ((host.disk st).readAliases root)

/-- `set_alias` -/
def Machine.setAlias (write : Except Text Unit) (st : Store) (name target : Text) :
    Store × Except Text Unit :=
  let aliases := ((host.disk st).readAliases host.root).insert name target
  match write with
  | .error e => (st, .error e)
  | .ok () =>
    ({ st with
        files := st.files.insert host.aliasesPlace
          (Audit.asBytes (host.formats.aliasText aliases)) }, .ok ())

/-! ### Acts -/

inductive Act where
  | accept (io : Faults) (staged : Text) (manifest : NamedManifest) (expected : Text)
  | register (io : Faults) (manifest : NamedManifest)
  | remove (io : Faults) (name : ModelName)
  | setAlias (write : Except Text Unit) (name : Text) (target : ModelName)
  | list (uid : Option UInt32)
  /-- Reads, and leaves everything as it is. -/
  | resolve (name : Text) (uid : Option UInt32)
  /-- Other programs change other files. -/
  | others (files : Table (List Text) (List UInt8))
  /-- The daemon starts again, on the same disk. -/
  | restart

def step (st : Store) : Act → Option Store
  | .accept io staged m expected => some (acceptStaged host.env io st staged m.manifest expected).1
  | .register io m => some (registerRemote host.env io st m.manifest).1
  | .remove io name => some (Registry.remove host.env io st name.text).1
  | .setAlias write name target => some (host.setAlias write st name target.text).1
  | .list uid => some (host.list st uid).2
  | .resolve _ _ => some st
  | .others files =>
    if files.lookup host.aliasesPlace = st.files.lookup host.aliasesPlace then
      some { st with files := files }
    else none
  | .restart => some st.invalidate

/-- A store that has just been made, without aliases. -/
def Machine.fresh (files : Table (List Text) (List UInt8)) : Store :=
  Store.new (files.erase host.aliasesPlace)

/-! ### Views that agree -/

/-- The listed manifests are those on the disk, in the order of their names; an alias
    is what the map of aliases says; and a name that `install` accepts, or that is an
    alias, resolves to the listed manifest its target names. -/
structure Agree (st : Store) : Prop where
  listed : (host.list st none).1 = st.readManifests.map fun m => (m, .system)
  aliased : ∀ name uid,
    resolveAlias host.settings (host.disk st) name uid = (host.aliases st uid).lookup name
  resolved : ∀ name,
    Install.usableName name = true ∨
      (resolveAlias host.settings (host.disk st) name none).isSome = true →
    ∀ m, (∃ r, (ModelResolve.resolve host.settings (host.disk st) name none).2 = .ok r ∧
        r.manifest = m) ↔
      (m, .system) ∈ (host.list st none).1 ∧
        m.name = targetOf host.settings (host.disk st) name none

/-- A manifest that is moved or removed as a staged file is not in the cache, or a
    manifest is written after it. -/
def Tracked (st : Store) : Act → Prop
  | .accept io staged _ expected =>
    taken host.env io st staged expected = true →
      (∃ stem, host.env.placeOf staged = .manifest stem) →
        st.cache = none ∨
          (brought host.env io st staged expected).isSome = true ∧ works io.write = true
  | _ => True

/-! ### Names and places -/

variable {host} {st : Store}

theorem slash_not_mem_of_usable {name : Text} (h : Install.usableName name = true) :
    '/' ∉ name := by
  intro hmem
  have hall : name.all Install.isNameChar = true := by
    simp only [Install.usableName, Bool.and_eq_true] at h
    exact h.1.2
  have hslash := List.all_eq_true.1 hall '/' hmem
  exact absurd hslash (by decide)

theorem ne_nil_of_usable {name : Text} (h : Install.usableName name = true) : name ≠ [] := by
  rintro rfl
  exact absurd h (by decide)

/-- Such a name leads to its own entry of the directory. -/
theorem manifestPath_usable {name : Text} (h : Install.usableName name = true) :
    UnixPath.resolve host.cwd (host.env.manifestPath name) =
      UnixPath.resolve host.cwd host.env.manifestsDir ++ [name ++ json] := by
  have hslash := slash_not_mem_of_usable h
  have hfolder := folderOf_eq_nil hslash
  have hfile : fileOf name = name := by
    have hsplit := folderOf_append_fileOf name
    rwa [hfolder] at hsplit
  have hplain := plain_json name
  rw [hfile] at hplain
  rw [Env.manifestPath, resolve_join, resolve_plain _ hplain]

theorem resolve_manifestsDir : UnixPath.resolve host.cwd host.env.manifestsDir =
    UnixPath.resolve host.cwd host.root ++ ["manifests".toList] := by
  rw [Env.manifestsDir, resolve_join]
  rfl

theorem resolve_blobsDir : UnixPath.resolve host.cwd host.env.blobsDir =
    UnixPath.resolve host.cwd host.root ++ ["blobs".toList, "sha256".toList] := by
  rw [Env.blobsDir, resolve_join]
  exact List.append_assoc _ ["blobs".toList] ["sha256".toList]

theorem manifestsDir_ne_blobsDir : UnixPath.resolve host.cwd host.env.manifestsDir ≠
    UnixPath.resolve host.cwd host.env.blobsDir := by
  rw [resolve_manifestsDir, resolve_blobsDir]
  intro heq
  exact absurd (congrArg List.length (List.append_cancel_left heq)) (by decide)

theorem placeOf_manifestPath {name : Text} (h : Install.usableName name = true) :
    host.env.placeOf (host.env.manifestPath name) = .manifest name := by
  have hplace : UnixPath.resolve host.env.cwd (host.env.manifestPath name) = _ :=
    manifestPath_usable h
  have hdirs : UnixPath.resolve host.cwd host.env.manifestsDir ≠
    UnixPath.resolve host.cwd host.env.blobsDir := manifestsDir_ne_blobsDir
  have hstem : json.isSuffixOf? (name ++ json) = some name :=
    List.isSuffixOf?_eq_some_iff_append_eq.2 rfl
  rw [Env.placeOf, hplace, List.getLast?_concat]
  simp only [List.dropLast_concat, env_cwd]
  rw [if_neg hdirs, if_pos trivial, hstem]
  exact if_neg (ne_nil_of_usable h)

theorem aliasesPlace_eq :
    host.aliasesPlace = UnixPath.resolve host.cwd host.root ++ ["aliases.json".toList] := by
  rw [Machine.aliasesPlace, Machine.aliasesPath, resolve_join]
  rfl

theorem placeOf_aliasesPath : host.env.placeOf host.aliasesPath = .elsewhere := by
  have hplace : UnixPath.resolve host.env.cwd host.aliasesPath = _ := aliasesPlace_eq
  have hblobs : UnixPath.resolve host.cwd host.root ≠
      UnixPath.resolve host.cwd host.env.blobsDir := by
    rw [resolve_blobsDir]
    exact fun heq => absurd (List.self_eq_append_right.1 heq) (by decide)
  have hmanifests : UnixPath.resolve host.cwd host.root ≠
      UnixPath.resolve host.cwd host.env.manifestsDir := by
    rw [resolve_manifestsDir]
    exact fun heq => absurd (List.self_eq_append_right.1 heq) (by decide)
  rw [Env.placeOf, hplace, List.getLast?_concat]
  simp only [List.dropLast_concat, env_cwd]
  rw [if_neg hblobs, if_neg hmanifests]

/-! ### What is read by path -/

theorem readManifest_usable {name : Text} (h : Install.usableName name = true) :
    (host.disk st).readManifest (ModelResolve.manifestPath host.root name) =
      st.manifests.lookup name := by
  have hfile : (host.disk st).file (ModelResolve.manifestPath host.root name) =
      (st.manifests.lookup name).map host.env.textOf := by
    show st.bytesAt host.env (host.env.manifestPath name) = _
    rw [Store.bytesAt, placeOf_manifestPath h]
  rw [Disk.readManifest, Disk.readToString, hfile]
  rcases st.manifests.lookup name with _ | m
  · rfl
  · rw [Option.map_some, Option.bind_some, Machine.env, Audit.readToString_asBytes]
    exact host.formats.manifest_read m

/-- The aliases in the registry's own file. -/
def Machine.aliasesIn (host : Machine) (file : Option (List UInt8)) : Table Text Text :=
  ((file.bind fun bytes => (Audit.readToString bytes).toOption).bind host.formats.aliasesOf).getD ∅

theorem readAliases_root :
    (host.disk st).readAliases host.root = host.aliasesIn (st.files.lookup host.aliasesPlace) := by
  have hfile : (host.disk st).file host.aliasesPath = st.files.lookup host.aliasesPlace := by
    show st.bytesAt host.env host.aliasesPath = _
    rw [Store.bytesAt, placeOf_aliasesPath]
    rfl
  rw [Disk.readAliases, Disk.readToString]
  show ((((host.disk st).file host.aliasesPath).bind _).bind _).getD ∅ = _
  rw [hfile]
  rfl

theorem aliasesIn_written (aliases : Table Text Text) :
    host.aliasesIn (some (Audit.asBytes (host.formats.aliasText aliases))) = aliases := by
  rw [Machine.aliasesIn, Option.bind_some, Audit.readToString_asBytes]
  show (host.formats.aliasesOf _).getD ∅ = aliases
  rw [host.formats.aliases_read]
  rfl

/-- The order in which the stores are asked is the order in which their maps lie over
    each other. -/
theorem resolveAlias_eq_lookup (name : Text) (uid : Option UInt32) :
    resolveAlias host.settings (host.disk st) name uid = (host.aliases st uid).lookup name := by
  rw [resolveAlias, Machine.aliases]
  rcases uid.bind (host.disk st).userRoot with _ | root
  · exact (lookup_extend _ _ _).symm
  · rw [lookup_extend, lookup_extend]
    rfl

/-! ### A store that is tended -/

/-- Every manifest lies in the file of its name, and its weights can be told. -/
structure Filed (host : Machine) (manifests : Table Text Registry.Manifest) : Prop where
  named : Keyed Registry.Manifest.name manifests
  usable : ∀ stem m, manifests.lookup stem = some m → Install.usableName stem = true
  weights : ∀ stem m, manifests.lookup stem = some m →
    m.isRemote = true ∨ ∃ hex, hexOf host.isEscaped m.digest = .ok hex

/-- What every act leaves as it is, whatever it does to the views. -/
structure Tended (host : Machine) (st : Store) : Prop where
  filed : Filed host st.manifests
  targets : ∀ name target,
    (host.aliasesIn (st.files.lookup host.aliasesPlace)).lookup name = some target →
      Install.usableName target = true
  cached : ∀ listed, st.cache = some listed → ByKey.Ascending Registry.Manifest.name listed

/-- What is in the cache is what is on the disk. -/
def Coherent (st : Store) : Prop := ∀ listed, st.cache = some listed → listed = st.readManifests

theorem le_iff (x y : Registry.Manifest) : Registry.Manifest.le x y = true ↔ x.name ≤ y.name := by
  rw [Registry.Manifest.le, decide_eq_true_iff]

theorem Filed.names {manifests : Table Text Registry.Manifest} (h : Filed host manifests) :
    (values manifests).map Registry.Manifest.name = manifests.keys := by
  rw [values, List.map_map]
  refine List.map_congr_left ?_
  rintro ⟨stem, m⟩ hmem
  exact h.named stem m (mem_entries_iff.1 hmem)

theorem Filed.ascending (h : Filed host st.manifests) :
    ByKey.Ascending Registry.Manifest.name st.readManifests := by
  apply ByKey.ascending_mergeSort Registry.Manifest.name le_iff
  rw [h.names]
  exact st.manifests.keys_nodup

theorem Filed.erase {manifests : Table Text Registry.Manifest} (h : Filed host manifests)
    (stem : Text) : Filed host (manifests.erase stem) := by
  have hsub : ∀ {name m}, (manifests.erase stem).lookup name = some m →
      manifests.lookup name = some m := by
    intro name m hm
    rcases eq_or_ne name stem with rfl | hne
    · rw [AList.lookup_erase] at hm
      cases hm
    · rwa [AList.lookup_erase_ne hne] at hm
  exact ⟨fun name m hm => h.named name m (hsub hm), fun name m hm => h.usable name m (hsub hm),
    fun name m hm => h.weights name m (hsub hm)⟩

theorem Filed.insert {manifests : Table Text Registry.Manifest} (h : Filed host manifests)
    {m : Registry.Manifest} (husable : Install.usableName m.name = true)
    (hweights : m.isRemote = true ∨ ∃ hex, hexOf host.isEscaped m.digest = .ok hex) :
    Filed host (manifests.insert m.name m) := by
  have hcases : ∀ {stem m'}, (manifests.insert m.name m).lookup stem = some m' →
      stem = m.name ∧ m' = m ∨ manifests.lookup stem = some m' := by
    intro stem m' hm'
    rcases eq_or_ne stem m.name with rfl | hne
    · rw [AList.lookup_insert] at hm'
      exact .inl ⟨rfl, (Option.some.inj hm').symm⟩
    · rw [AList.lookup_insert_ne hne] at hm'
      exact .inr hm'
  refine ⟨h.named.insert m, ?_, ?_⟩
  · intro stem m' hm'
    rcases hcases hm' with ⟨rfl, rfl⟩ | hm'
    · exact husable
    · exact h.usable stem m' hm'
  · intro stem m' hm'
    rcases hcases hm' with ⟨rfl, rfl⟩ | hm'
    · exact hweights
    · exact h.weights stem m' hm'

/-! ### What agreeing comes to -/

theorem list_none (h : Tended host st) : (host.list st none).1 =
    (systemManifests st).1.map fun m => (m, .system) := by
  have hascending : ByKey.Ascending Registry.Manifest.name (systemManifests st).1 := by
    rw [systemManifests]
    rcases hcache : st.cache with _ | listed
    · exact h.filed.ascending
    · exact h.cached listed hcache
  apply ByKey.collect_of_ascending
  exact List.pairwise_map.2 hascending

theorem coherent_iff_systemManifests : Coherent st ↔ (systemManifests st).1 = st.readManifests := by
  rw [Coherent, systemManifests]
  rcases st.cache with _ | listed
  · simp
  · simp

theorem resolve_none (name : Text) :
    (ModelResolve.resolve host.settings (host.disk st) name none).2 =
      match (host.disk st).readManifest (ModelResolve.manifestPath host.root
          (targetOf host.settings (host.disk st) name none)) with
      | some m => ModelResolve.resolved host.isEscaped host.root .system m
      | none => .error (noModelHereText host.isEscaped
          (targetOf host.settings (host.disk st) name none)) := by
  rw [ModelResolve.resolve]
  rfl

/-- A manifest that is in the store is found with its weights. -/
theorem resolved_ok {m : Registry.Manifest}
    (h : m.isRemote = true ∨ ∃ hex, hexOf host.isEscaped m.digest = .ok hex) :
    ∃ blob, ModelResolve.resolved host.isEscaped host.root .system m = .ok ⟨m, blob, .system⟩ := by
  rw [ModelResolve.resolved, blobFor, blobPath]
  by_cases hremote : m.isRemote = true
  · rw [if_pos hremote]
    exact ⟨_, rfl⟩
  · obtain ⟨hex, hhex⟩ := h.resolve_left hremote
    rw [if_neg hremote, hhex]
    exact ⟨_, rfl⟩

/-- One hop leads from a usable name, or from an alias, to a usable name. -/
theorem target_usable (h : Tended host st) {name : Text}
    (hname : Install.usableName name = true ∨
      (resolveAlias host.settings (host.disk st) name none).isSome = true) :
    Install.usableName (targetOf host.settings (host.disk st) name none) = true := by
  rw [targetOf]
  rcases htarget : resolveAlias host.settings (host.disk st) name none with _ | target
  · rw [htarget] at hname
    exact hname.resolve_right (by simp)
  · rw [Option.getD_some]
    rw [resolveAlias_eq_lookup, Machine.aliases, Option.bind_none, lookup_extend, readAliases_root,
      Option.or_eq_some_iff] at htarget
    rcases htarget with hconfig | ⟨_, hsystem⟩
    · exact host.config_usable name target hconfig
    · exact h.targets name target hsystem

theorem resolved_iff_lookup (h : Tended host st) {target : Text}
    (htarget : Install.usableName target = true) (m : Registry.Manifest) :
    (∃ r, (match (host.disk st).readManifest (ModelResolve.manifestPath host.root target) with
        | some m => ModelResolve.resolved host.isEscaped host.root .system m
        | none => .error (noModelHereText host.isEscaped target)) = .ok r ∧ r.manifest = m) ↔
      st.manifests.lookup target = some m := by
  rw [readManifest_usable htarget]
  rcases hlookup : st.manifests.lookup target with _ | found
  · simp
  · obtain ⟨blob, hok⟩ := resolved_ok (h.filed.weights target found hlookup)
    simp only [hok, Option.some.injEq]
    constructor
    · rintro ⟨r, hr, rfl⟩
      cases hr
      rfl
    · rintro rfl
      exact ⟨_, rfl, rfl⟩

theorem mem_readManifests_iff (h : Filed host st.manifests) {target : Text}
    (m : Registry.Manifest) :
    st.manifests.lookup target = some m ↔ m ∈ st.readManifests ∧ m.name = target := by
  rw [mem_readManifests, mem_values_iff]
  constructor
  · intro hlookup
    exact ⟨⟨target, hlookup⟩, h.named target m hlookup⟩
  · rintro ⟨⟨stem, hstem⟩, rfl⟩
    rwa [h.named stem m hstem]

/-- Of a tended store the views agree exactly when the cache is what is on the disk. -/
theorem agree_iff_coherent (h : Tended host st) : Agree host st ↔ Coherent st := by
  have hinj : Function.Injective fun m : Registry.Manifest => (m, StoreKind.system) :=
    fun m m' heq => (Prod.mk.inj heq).1
  constructor
  · intro hagree
    have hlisted := hagree.listed
    rw [list_none h] at hlisted
    exact coherent_iff_systemManifests.2 (List.map_injective_iff.2 hinj hlisted)
  · intro hcoherent
    have hlisted := list_none h
    rw [coherent_iff_systemManifests.1 hcoherent] at hlisted
    refine ⟨hlisted, fun name uid => resolveAlias_eq_lookup name uid, fun name hname m => ?_⟩
    rw [hlisted, List.mem_map_of_injective hinj, ← mem_readManifests_iff h.filed, resolve_none]
    exact resolved_iff_lookup h (target_usable h hname) m

/-! ### What an act leaves -/

theorem Coherent.congr {st' : Store} (h : Coherent st) (hmanifests : st'.manifests = st.manifests)
    (hcache : st'.cache = st.cache) : Coherent st' := by
  intro listed hlisted
  rw [hcache] at hlisted
  rw [Store.readManifests, hmanifests]
  exact h listed hlisted

theorem coherent_of_cache_none (h : st.cache = none) : Coherent st := by
  intro listed hlisted
  rw [h] at hlisted
  cases hlisted

theorem Tended.congr {st' : Store} (h : Tended host st) (hmanifests : st'.manifests = st.manifests)
    (hfiles : st'.files = st.files) (hcache : st'.cache = st.cache) : Tended host st' := by
  refine ⟨?_, ?_, ?_⟩
  · rw [hmanifests]
    exact h.filed
  · rw [hfiles]
    exact h.targets
  · rw [hcache]
    exact h.cached

theorem tended_of_cache_none (hfiled : Filed host st.manifests) (hcache : st.cache = none)
    (htargets : ∀ name target,
      (host.aliasesIn (st.files.lookup host.aliasesPlace)).lookup name = some target →
        Install.usableName target = true) : Tended host st := by
  refine ⟨hfiled, htargets, fun listed hlisted => ?_⟩
  rw [hcache] at hlisted
  cases hlisted

/-- A file that goes takes at most the aliases with it, or a manifest. -/
theorem tended_without (h : Tended host st) (path : Text) :
    Tended host (st.without host.env path) := by
  rw [Store.without]
  rcases host.env.placeOf path with file | stem | _
  · exact h.congr rfl rfl rfl
  · exact ⟨h.filed.erase stem, h.targets, h.cached⟩
  · refine ⟨h.filed, ?_, h.cached⟩
    intro name target htarget
    rcases eq_or_ne host.aliasesPlace (UnixPath.resolve host.env.cwd path) with heq | hne
    · dsimp only at htarget
      rw [← heq, AList.lookup_erase] at htarget
      cases htarget
    · dsimp only at htarget
      rw [AList.lookup_erase_ne hne] at htarget
      exact h.targets name target htarget

variable {io : Faults} {staged expected : Text}

theorem tended_handled (h : Tended host st) :
    Tended host (handled host.env io st staged expected) := by
  rw [handled]
  split
  · exact tended_without h staged
  · exact h

/-- Whether an acceptance writes its manifest. -/
def Written (env : Env) (io : Faults) (st : Store) (staged expected : Text) : Prop :=
  (brought env io st staged expected).isSome = true ∧ works io.write = true

theorem placed_eq (env : Env) (io : Faults) (st : Store) (staged expected hex : Text)
    (bytes : List UInt8) :
    ∃ blobs, placed env io st staged expected hex bytes =
      { handled env io st staged expected with blobs := blobs } := by
  rw [placed]
  split
  · exact ⟨_, rfl⟩
  · exact ⟨_, rfl⟩

/-- An acceptance moves or removes the staged file, or not, and then writes a manifest
    and drops the cache, or not. -/
theorem accept_cases (host : Machine) (io : Faults) (st : Store) (staged expected : Text)
    (m : NamedManifest) : ∃ blobs,
    (¬ Written host.env io st staged expected ∧
      (acceptStaged host.env io st staged m.manifest expected).1 =
        { handled host.env io st staged expected with blobs := blobs }) ∨
    (Written host.env io st staged expected ∧ ∃ m' : NamedManifest,
      (∃ hex, hexOf host.isEscaped m'.manifest.digest = .ok hex) ∧
      (acceptStaged host.env io st staged m.manifest expected).1 =
        { handled host.env io st staged expected with
            manifests := (handled host.env io st staged expected).manifests.insert
              m'.manifest.name m'.manifest
            blobs := blobs
            cache := none }) := by
  rw [acceptStaged, Written]
  rcases verify_cases with ⟨hnone, e, hverify⟩ | ⟨hex, bytes, hgenuine, hd, hhex, hverify⟩
  · rw [hverify, brought, hnone]
    exact ⟨_, .inl ⟨by simp, rfl⟩⟩
  rw [hverify]
  rcases place_cases bytes hgenuine with ⟨hnone, htaken, e, hplace⟩ | ⟨hbrought, hplace⟩
  · dsimp only
    rw [hplace, hnone, handled_eq_self htaken]
    exact ⟨_, .inl ⟨by simp, rfl⟩⟩
  · obtain ⟨blobs, hblobs⟩ := placed_eq host.env io st staged expected hex bytes
    dsimp only
    rw [hplace, hbrought]
    dsimp only
    rw [hblobs, hd, record]
    rcases hwrite : io.write with e | _
    · exact ⟨blobs, .inl ⟨by simp, rfl⟩⟩
    · refine ⟨blobs, .inr ⟨by simp, ⟨m.manifest.measured (sha256 ++ hex) bytes.length, m.usable⟩,
        ⟨hex, hhex⟩, ?_⟩⟩
      have hname : (m.manifest.measured (sha256 ++ hex) bytes.length).name = m.manifest.name := rfl
      dsimp only
      rw [Store.written, hname, placeOf_manifestPath m.usable]
      rfl

theorem accept_tended (h : Tended host st) (m : NamedManifest) :
    Tended host (acceptStaged host.env io st staged m.manifest expected).1 := by
  have hleft : Tended host (handled host.env io st staged expected) := tended_handled h
  obtain ⟨blobs, ⟨-, heq⟩ | ⟨-, m', hhex, heq⟩⟩ := accept_cases host io st staged expected m
  · rw [heq]
    exact hleft.congr rfl rfl rfl
  · rw [heq]
    exact tended_of_cache_none (hleft.filed.insert m'.usable (.inr hhex)) rfl hleft.targets

/-- A remote manifest is registered, or nothing happens. -/
theorem register_cases (host : Machine) (io : Faults) (st : Store) (m : NamedManifest) :
    (registerRemote host.env io st m.manifest).1 = st ∨ m.manifest.isRemote = true ∧
      (registerRemote host.env io st m.manifest).1 =
        { st with
            manifests := st.manifests.insert m.manifest.name m.manifest
            cache := none } := by
  rw [registerRemote]
  split
  · exact .inl rfl
  · next hremote =>
    rw [record]
    rcases io.write with e | _
    · exact .inl rfl
    · refine .inr ⟨not_not.1 hremote, ?_⟩
      dsimp only
      rw [Store.written, placeOf_manifestPath m.usable]
      rfl

/-- A manifest is gone and the rest is listed afresh, or nothing happens. -/
theorem remove_cases (host : Machine) (io : Faults) (st : Store) (name : ModelName) :
    (Registry.remove host.env io st name.text).1 = st ∨ ∃ blobs,
      (Registry.remove host.env io st name.text).1 =
        { st with
            manifests := st.manifests.erase name.text
            blobs := blobs
            cache := some
              (Store.readManifests { st with manifests := st.manifests.erase name.text }) } := by
  rcases hread : st.readManifest host.env (host.env.manifestPath name.text) with _ | manifest
  · rw [Registry.remove, hread]
    exact .inl rfl
  rcases hunlink : io.unlink with e | _
  · rw [Registry.remove, hread, hunlink]
    exact .inl rfl
  have hwithout : st.without host.env (host.env.manifestPath name.text) =
      { st with manifests := st.manifests.erase name.text } := by
    rw [Store.without, placeOf_manifestPath name.usable]
  rw [remove_eq hread hunlink, hwithout]
  rcases release_cases host.env io.unlinkBlob with ⟨hsame, -⟩ | ⟨hex, -, -, hgone⟩
  · rw [hsame]
    exact .inr ⟨_, rfl⟩
  · rw [hgone]
    exact .inr ⟨_, rfl⟩

theorem list_store (uid : Option UInt32) : (host.list st uid).2 = match st.cache with
    | some _ => st
    | none => { st with cache := some st.readManifests } := by
  rw [Machine.list, systemManifests]
  rcases st.cache with _ | listed
  · dsimp only
    split <;> rfl
  · dsimp only
    split <;> rfl

theorem step_tended (act : Act) (st' : Store) (h : Tended host st)
    (hstep : step host st act = some st') : Tended host st' := by
  cases act with
  | accept io staged m expected =>
    cases hstep
    exact accept_tended h m
  | register io m =>
    cases hstep
    rcases register_cases host io st m with heq | ⟨hremote, heq⟩
    · rw [heq]
      exact h
    · rw [heq]
      exact tended_of_cache_none (h.filed.insert m.usable (.inl hremote)) rfl h.targets
  | remove io name =>
    cases hstep
    rcases remove_cases host io st name with heq | ⟨blobs, heq⟩
    · rw [heq]
      exact h
    · rw [heq]
      refine ⟨h.filed.erase name.text, h.targets, ?_⟩
      rintro _ ⟨⟩
      exact (h.filed.erase name.text).ascending
  | setAlias write name target =>
    cases hstep
    rcases write with e | _
    · exact h
    · refine ⟨h.filed, ?_, h.cached⟩
      intro other found hfound
      dsimp only [Machine.setAlias] at hfound
      rw [AList.lookup_insert, aliasesIn_written, readAliases_root] at hfound
      rcases eq_or_ne other name with rfl | hne
      · rw [AList.lookup_insert] at hfound
        cases hfound
        exact target.usable
      · rw [AList.lookup_insert_ne hne] at hfound
        exact h.targets other found hfound
  | list uid =>
    cases hstep
    rw [list_store]
    rcases hcache : st.cache with _ | listed
    · refine ⟨h.filed, h.targets, ?_⟩
      rintro _ ⟨⟩
      exact h.filed.ascending
    · exact h
  | resolve name uid =>
    cases hstep
    exact h
  | others files =>
    rw [step] at hstep
    split at hstep
    · next hsame =>
      cases hstep
      refine ⟨h.filed, ?_, h.cached⟩
      rw [hsame]
      exact h.targets
    · cases hstep
  | restart =>
    cases hstep
    exact tended_of_cache_none h.filed rfl h.targets

/-! ### When the cache goes on telling the truth -/

theorem bytesAt_of_taken {env : Env} (h : taken env io st staged expected = true) :
    ∃ bytes, st.bytesAt env staged = some bytes := by
  rcases hbytes : st.bytesAt env staged with _ | bytes
  · have hnone : genuine env io st staged expected = none := by
      refine genuine_eq_none fun hgenuine => ?_
      rw [hbytes] at hgenuine
      cases hgenuine.2.2.2
    rw [taken, hnone, hbytes] at h
    simp at h
  · exact ⟨bytes, rfl⟩

/-- A listed manifest is not in the store any more once its file is gone. -/
theorem not_coherent_of_erased (h : Tended host st) (hcoherent : Coherent st) {stem : Text}
    {m : Registry.Manifest} (hstem : st.manifests.lookup stem = some m)
    (hcache : st.cache ≠ none) {st' : Store} (hmanifests : st'.manifests = st.manifests.erase stem)
    (hcache' : st'.cache = st.cache) : ¬ Coherent st' := by
  obtain ⟨listed, hlisted⟩ := Option.ne_none_iff_exists'.1 hcache
  intro hstale
  have hmem : m ∈ st'.readManifests := by
    rw [← hstale listed (hcache'.trans hlisted), hcoherent listed hlisted]
    exact ((mem_readManifests_iff h.filed m).1 hstem).1
  have hfiled' : Filed host st'.manifests := by
    rw [hmanifests]
    exact h.filed.erase stem
  have hlookup := (mem_readManifests_iff hfiled' m).2 ⟨hmem, h.filed.named stem m hstem⟩
  rw [hmanifests, AList.lookup_erase] at hlookup
  cases hlookup

theorem accept_coherent_iff (h : Tended host st) (hcoherent : Coherent st) (m : NamedManifest) :
    Coherent (acceptStaged host.env io st staged m.manifest expected).1 ↔
      Tracked host st (.accept io staged m expected) := by
  obtain ⟨blobs, ⟨hkept, heq⟩ | ⟨hwritten, m', -, heq⟩⟩ := accept_cases host io st staged expected m
  · rw [heq]
    by_cases htaken : taken host.env io st staged expected = true
    swap
    · -- The staged file stays, and with it the whole store.
      rw [handled_eq_self (Bool.eq_false_iff.2 htaken)]
      exact ⟨fun _ htaken' => absurd htaken' htaken, fun _ => hcoherent.congr rfl rfl⟩
    rw [handled, if_pos htaken, Store.without]
    rcases hplace : host.env.placeOf staged with file | stem | _
    · refine ⟨fun _ _ hstem => ?_, fun _ => hcoherent.congr rfl rfl⟩
      rw [hplace] at hstem
      obtain ⟨_, hstem⟩ := hstem
      cases hstem
    · obtain ⟨bytes, hbytes⟩ := bytesAt_of_taken htaken
      rw [Store.bytesAt, hplace] at hbytes
      obtain ⟨gone, hgone, -⟩ := Option.map_eq_some_iff.1 hbytes
      constructor
      · intro hstill _ _
        by_contra hcache
        rw [not_or] at hcache
        refine not_coherent_of_erased h hcoherent hgone hcache.1 ?_ ?_ hstill
        · rfl
        · rfl
      · intro htracked
        rcases htracked htaken ⟨stem, hplace⟩ with hcache | hwritten
        · exact coherent_of_cache_none hcache
        · exact absurd hwritten hkept
    · refine ⟨fun _ _ hstem => ?_, fun _ => hcoherent.congr rfl rfl⟩
      rw [hplace] at hstem
      obtain ⟨_, hstem⟩ := hstem
      cases hstem
  · rw [heq]
    exact ⟨fun _ _ _ => .inr hwritten, fun _ => coherent_of_cache_none rfl⟩

/-- The other acts leave the cache as it is, drop it or fill it afresh. -/
theorem step_coherent_iff (act : Act) (h : Tended host st) (hcoherent : Coherent st) :
    Keeps (step host) Coherent st act ↔ Tracked host st act := by
  have hall : ∀ {act : Act}, (∀ st', step host st act = some st' → Coherent st') →
      Tracked host st act → (Keeps (step host) Coherent st act ↔ Tracked host st act) :=
    fun hkeeps htracked => ⟨fun _ => htracked, fun _ => hkeeps⟩
  cases act with
  | accept io staged m expected =>
    rw [← accept_coherent_iff h hcoherent m]
    constructor
    · intro hkeeps
      exact hkeeps _ rfl
    · rintro hcoherent' _ ⟨⟩
      exact hcoherent'
  | register io m =>
    refine hall ?_ trivial
    rintro _ ⟨⟩
    rcases register_cases host io st m with heq | ⟨-, heq⟩
    · rw [heq]
      exact hcoherent
    · rw [heq]
      exact coherent_of_cache_none rfl
  | remove io name =>
    refine hall ?_ trivial
    rintro _ ⟨⟩
    rcases remove_cases host io st name with heq | ⟨blobs, heq⟩
    · rw [heq]
      exact hcoherent
    · rw [heq]
      rintro _ ⟨⟩
      rfl
  | setAlias write name target =>
    refine hall ?_ trivial
    rintro _ ⟨⟩
    rcases write with e | _
    · exact hcoherent
    · exact hcoherent.congr rfl rfl
  | list uid =>
    refine hall ?_ trivial
    rintro _ ⟨⟩
    rw [list_store]
    rcases st.cache with _ | listed
    · rintro _ ⟨⟩
      rfl
    · exact hcoherent
  | resolve name uid =>
    refine hall ?_ trivial
    rintro _ ⟨⟩
    exact hcoherent
  | others files =>
    refine hall ?_ trivial
    intro st' hstep
    rw [step] at hstep
    split at hstep
    · cases hstep
      exact hcoherent.congr rfl rfl
    · cases hstep
  | restart =>
    refine hall ?_ trivial
    rintro _ ⟨⟩
    exact coherent_of_cache_none rfl

theorem fresh_tended (host : Machine) (files : Table (List Text) (List UInt8)) :
    Tended host (host.fresh files) := by
  have hnone : ∀ stem m, (host.fresh files).manifests.lookup stem = some m → False :=
    fun stem m hm => nomatch hm
  refine ⟨⟨?_, ?_, ?_⟩, ?_, ?_⟩
  · exact fun stem m hm => (hnone stem m hm).elim
  · exact fun stem m hm => (hnone stem m hm).elim
  · exact fun stem m hm => (hnone stem m hm).elim
  · intro name target htarget
    rw [Machine.fresh, Store.new, AList.lookup_erase] at htarget
    cases htarget
  · exact fun listed hlisted => nomatch hlisted

/-- **In every run from a fresh store the views agree in every state**, if and only if
    no acceptance takes a listed manifest away without writing one. -/
theorem views_agree_iff (host : Machine) (files : Table (List Text) (List UInt8))
    (acts : List Act) :
    Agree host (host.fresh files) ∧
      (along (step host) (Keeps (step host) (Agree host)) (host.fresh files) acts ↔
        along (step host) (Tracked host) (host.fresh files) acts) := by
  have htended := fresh_tended host files
  have hagree : Agree host (host.fresh files) :=
    (agree_iff_coherent htended).2 (coherent_of_cache_none rfl)
  refine ⟨hagree, ?_⟩
  refine along_keeps_iff_of_invariant (step host) (fun st act st' => step_tended act st') ?_ acts
    htended hagree
  intro st act hst hviews
  rw [← step_coherent_iff act hst ((agree_iff_coherent hst).1 hviews)]
  constructor
  · intro hkeeps st' hstep
    exact (agree_iff_coherent (step_tended act st' hst hstep)).1 (hkeeps st' hstep)
  · intro hkeeps st' hstep
    exact (agree_iff_coherent (step_tended act st' hst hstep)).2 (hkeeps st' hstep)

/-! ### A path that leads out of staging -/

/-- Fields in a row, each character after a colon and each field before a bar. -/
def packed (fields : List Text) : Text :=
  fields.flatMap fun field => field.flatMap (fun c => [':', c]) ++ ['|']

def unpacked : Text → Text → List Text
  | field, '|' :: rest => field :: unpacked [] rest
  | field, _ :: c :: rest => unpacked (field ++ [c]) rest
  | _, _ => []

theorem unpacked_field (before field rest : Text) :
    unpacked before (field.flatMap (fun c => [':', c]) ++ '|' :: rest) =
      (before ++ field) :: unpacked [] rest := by
  induction field generalizing before with
  | nil => simp [unpacked]
  | cons c field ih =>
    have hstep := ih (before ++ [c])
    simp only [List.append_assoc, List.singleton_append] at hstep
    rw [← hstep]
    rfl

theorem unpacked_packed (fields : List Text) : unpacked [] (packed fields) = fields := by
  induction fields with
  | nil => rfl
  | cons field fields ih =>
    have hsplit : packed (field :: fields) =
        field.flatMap (fun c => [':', c]) ++ '|' :: packed fields := by
      simp [packed]
    rw [hsplit, unpacked_field, ih, List.nil_append]

def unary (n : Nat) : Text := List.replicate n '1'

def samplePack (m : Registry.Manifest) : Text :=
  packed ([m.name, m.digest, m.format, m.quantization, m.license, m.backend, m.source,
    unary m.requirements.weightsBytes, unary m.requirements.minMemoryBytes,
    unary m.requirements.defaultCtx, unary m.requirements.maxCtx] ++ m.capabilities)

def sampleUnpack (text : Text) : Option Registry.Manifest :=
  match unpacked [] text with
  | name :: digest :: format :: quantization :: license :: backend :: source :: weights ::
      memory :: defaultCtx :: maxCtx :: capabilities =>
    some ⟨name, digest, format, quantization, license,
      ⟨weights.length, memory.length, defaultCtx.length, maxCtx.length⟩, backend, capabilities,
      source⟩
  | _ => none

theorem sampleUnpack_pack (m : Registry.Manifest) : sampleUnpack (samplePack m) = some m := by
  rw [sampleUnpack, samplePack, unpacked_packed]
  simp [unary]

def pairUp : List Text → List (Row Text Text)
  | name :: target :: rest => ⟨name, target⟩ :: pairUp rest
  | _ => []

theorem pairUp_rows (rows : List (Row Text Text)) :
    pairUp (rows.flatMap fun row => [row.1, row.2]) = rows := by
  induction rows with
  | nil => rfl
  | cons row rows ih => exact congrArg (row :: ·) ih

def sampleFormats : Formats where
  manifestText := samplePack
  manifestOf := sampleUnpack
  aliasText aliases := packed (aliases.entries.flatMap fun row => [row.1, row.2])
  aliasesOf text :=
    if hkeys : (pairUp (unpacked [] text)).keys.Nodup then some ⟨_, hkeys⟩ else none
  manifest_read := sampleUnpack_pack
  aliases_read aliases := by
    have hrows : pairUp (unpacked [] (packed
        (aliases.entries.flatMap fun row => [row.1, row.2]))) = aliases.entries := by
      rw [unpacked_packed, pairUp_rows]
    simp only [hrows]
    exact dif_pos aliases.keys_nodup

/-- Two files and their digests, and no aliases. -/
def sampleMachine : Machine where
  cwd := []
  root := "/models".toList
  digestOf := oneAndTwo.digestOf
  isEscaped _ := false
  formats := sampleFormats
  configAliases := ∅
  config_usable _ _ htarget := nomatch htarget

def named (name : Text) (h : Install.usableName name = true) : NamedManifest :=
  ⟨⟨name, [], gguf, [], [], .none, [], [], []⟩, h⟩

def stagedWeights : Text := join sampleMachine.env.stagingDir "weights".toList

def stagedManifest : Text := join sampleMachine.env.stagingDir "../manifests/small.json".toList

/-- One model is installed and listed, and a file is refused whose path leads from
    staging to the model's manifest. -/
def refusal : List Act :=
  [.others (AList.singleton (UnixPath.resolve [] stagedWeights) [1]),
    .accept .none stagedWeights (named "small".toList (by decide)) (sha256 ++ oneHex),
    .list none,
    .accept .none stagedManifest (named "other".toList (by decide)) (sha256 ++ oneHex)]

/-- The model is listed and its manifest is gone. -/
theorem refused_still_listed : ∃ st,
    runs (step sampleMachine) (sampleMachine.fresh ∅) refusal = some st ∧
      st.readManifests = [] ∧
      (sampleMachine.list st none).1.map entryName = ["small".toList] ∧
      ¬ Agree sampleMachine st := by
  have hrun : (runs (step sampleMachine) (sampleMachine.fresh ∅) refusal).map
      (fun st => (st.readManifests, (sampleMachine.list st none).1.map entryName)) =
        some ([], ["small".toList]) := by decide +kernel
  obtain ⟨st, hst, heq⟩ := Option.map_eq_some_iff.1 hrun
  obtain ⟨hempty, hnames⟩ := Prod.mk.inj heq
  refine ⟨st, hst, hempty, hnames, fun hagree => ?_⟩
  rw [hagree.listed, hempty] at hnames
  cases hnames

end AiDaemon.RegistryViews
