import AiDaemon.ContentStore
import AiDaemon.Ledger
import AiDaemon.Turn
import AiDaemon.UnixPath
import Mathlib.Data.Char
import Mathlib.Data.List.Lex

/-!
# The model registry (`registry.rs`)

The system store is two directories, manifests by name and weights by digest,
with a cache of the manifests in front of the first.  The functions are here as
they run alone; what the file system answers to each fallible operation is a
`Faults`.

A name is not looked at before it is made into a path, so it may lead out of
the directory of the manifests; so may the path of a staged file, which is only
asked to begin with the staging directory.
-/

namespace AiDaemon.Registry

open Ledger UnixPath

/-! ### Manifests -/

structure Requirements where
  weightsBytes : Nat
  minMemoryBytes : Nat
  defaultCtx : Nat
  maxCtx : Nat
deriving DecidableEq, Repr

def Requirements.none : Requirements := ⟨0, 0, 0, 0⟩

structure Manifest where
  name : Text
  digest : Text
  format : Text
  quantization : Text
  license : Text
  requirements : Requirements
  backend : Text
  capabilities : List Text
  source : Text
deriving DecidableEq, Repr

/-- `REMOTE_FORMAT` -/
def remoteFormat : Text := "remote".toList

def Manifest.isRemote (m : Manifest) : Bool := m.format = remoteFormat

def gguf : Text := "gguf".toList

def generate : Text := "generate".toList

def Manifest.serves (m : Manifest) (capability : Text) : Bool :=
  if m.capabilities = [] then capability = generate
  else m.capabilities.any fun claim => claim = capability

/-! ### Digests -/

def sha256 : Text := "sha256:".toList

def unsupportedText (isEscaped : Char → Bool) (digest : Text) : Text :=
  "unsupported digest ".toList ++ Turn.quoted isEscaped digest ++ "; only sha256 in v1".toList

def malformedText (isEscaped : Char → Bool) (digest : Text) : Text :=
  "malformed sha256 digest ".toList ++ Turn.quoted isEscaped digest

/-- `hex_of` -/
def hexOf (isEscaped : Char → Bool) (digest : Text) : Except Text Text :=
  match sha256.isPrefixOf? digest with
  | none => .error (unsupportedText isEscaped digest)
  | some hex =>
    if Text.byteLen hex ≠ 64 ∨
    ¬ hex.all Text.isHexDigit then .error (malformedText isEscaped digest)
    else .ok hex

theorem eq_of_hexOf {isEscaped : Char → Bool} {digest hex : Text}
    (h : hexOf isEscaped digest = .ok hex) : digest = sha256 ++ hex := by
  rw [hexOf] at h
  split at h
  · cases h
  · next rest hprefix =>
    split at h
    · cases h
    · cases h
      exact (List.isPrefixOf?_eq_some_iff_append_eq.mp hprefix).symm

/-! ### The store -/

/-- Where the daemon and the store are, the digest of bytes as it is written, the
    text of a manifest and what is read back from a text, and the characters that
    `Debug` escapes. -/
structure Env where
  cwd : List Text
  root : Text
  digestOf : List UInt8 → Text
  textOf : Manifest → List UInt8
  manifestOf : List UInt8 → Option Manifest
  isEscaped : Char → Bool

def Env.stagingDir (env : Env) : Text := join env.root "staging".toList

def Env.blobsDir (env : Env) : Text := join env.root "blobs/sha256".toList

def Env.manifestsDir (env : Env) : Text := join env.root "manifests".toList

def json : Text := ".json".toList

/-- The file of a name; a name may hold slashes. -/
def Env.manifestPath (env : Env) (name : Text) : Text := join env.manifestsDir (name ++ json)

/-- The manifests by the stem of their file, the weights by the name of theirs, and
    all other files by where they are. -/
structure Store where
  manifests : Table Text Manifest
  blobs : Table Text (List UInt8)
  files : Table (List Text) (List UInt8)
  cache : Option (List Manifest)

/-- A store that has just been made. -/
def Store.new (files : Table (List Text) (List UInt8)) : Store := ⟨∅, ∅, files, none⟩

/-- What is at a place. -/
inductive Place where
  | weights (file : Text)
  | manifest (stem : Text)
  | elsewhere
deriving DecidableEq

/-- A path may lead into the store.  A file that is all extension has none. -/
def Env.placeOf (env : Env) (path : Text) : Place :=
  let place := resolve env.cwd path
  match place.getLast? with
  | none => .elsewhere
  | some file =>
    if place.dropLast = resolve env.cwd env.blobsDir then .weights file
    else if place.dropLast = resolve env.cwd env.manifestsDir then
      match json.isSuffixOf? file with
      | none => .elsewhere
      | some stem => if stem = [] then .elsewhere else .manifest stem
    else .elsewhere

/-- The bytes of the file at a path. -/
def Store.bytesAt (st : Store) (env : Env) (path : Text) : Option (List UInt8) :=
  match env.placeOf path with
  | .weights file => st.blobs.lookup file
  | .manifest stem => (st.manifests.lookup stem).map env.textOf
  | .elsewhere => st.files.lookup (resolve env.cwd path)

/-- `read_manifest` -/
def Store.readManifest (st : Store) (env : Env) (path : Text) : Option Manifest :=
  match env.placeOf path with
  | .manifest stem => st.manifests.lookup stem
  | _ => (st.bytesAt env path).bind env.manifestOf

/-- The file at a path is gone. -/
def Store.without (st : Store) (env : Env) (path : Text) : Store :=
  match env.placeOf path with
  | .weights file => { st with blobs := st.blobs.erase file }
  | .manifest stem => { st with manifests := st.manifests.erase stem }
  | .elsewhere => { st with files := st.files.erase (resolve env.cwd path) }

/-- A manifest is written to a path. -/
def Store.written (st : Store) (env : Env) (path : Text) (m : Manifest) : Store :=
  match env.placeOf path with
  | .weights file => { st with blobs := st.blobs.insert file (env.textOf m) }
  | .manifest stem => { st with manifests := st.manifests.insert stem m }
  | .elsewhere => { st with files := st.files.insert (resolve env.cwd path) (env.textOf m) }

def Manifest.le (a b : Manifest) : Bool := decide (a.name ≤ b.name)

/-- `read_manifests` of the system store. -/
def Store.readManifests (st : Store) : List Manifest := (values st.manifests).mergeSort Manifest.le

def Store.invalidate (st : Store) : Store := { st with cache := none }

/-- `system_manifests` -/
def systemManifests (st : Store) : List Manifest × Store :=
  match st.cache with
  | some cached => (cached, st)
  | none => (st.readManifests, { st with cache := some st.readManifests })

/-- What the file system answers to what can fail. -/
structure Faults where
  hash : Except Text Unit
  metadata : Except Text Unit
  drop : Except Text Unit
  rename : Except Text Unit
  write : Except Text Unit
  unlink : Except Text Unit
  unlinkBlob : Except Text Unit

/-- Everything succeeds. -/
def Faults.none : Faults := ⟨.ok (), .ok (), .ok (), .ok (), .ok (), .ok (), .ok ()⟩

def works : Except Text Unit → Bool
  | .ok () => true
  | .error _ => false

@[simp] theorem works_ok (u : Unit) : works (.ok u) = true := rfl

@[simp] theorem works_error (e : Text) : works (.error e) = false := rfl

/-- The removal of a file, whose failure is ignored. -/
def Store.removeFile (st : Store) (env : Env) (answer : Except Text Unit) (path : Text) : Store :=
  if works answer then st.without env path else st

/-- The removal of weights, likewise. -/
def Store.removeBlob (st : Store) (answer : Except Text Unit) (file : Text) : Store :=
  if works answer then { st with blobs := st.blobs.erase file } else st

/-! ### Accepting -/

def notStagedText (staged : Text) : Text := staged ++ " is not in the staging directory".toList

def hashingText (staged e : Text) : Text := "hashing ".toList ++ staged ++ ": ".toList ++ e

def noFileText : Text := "No such file or directory (os error 2)".toList

def mismatchText (expected actual : Text) : Text :=
  "digest mismatch: expected ".toList ++ expected ++ ", got ".toList ++ actual

def movingText (e : Text) : Text := "moving into store: ".toList ++ e

/-- The manifest that is written, with what has been measured. -/
def Manifest.measured (m : Manifest) (digest : Text) (size : Nat) : Manifest :=
  { m with
    digest := digest
    requirements := { m.requirements with
      weightsBytes :=
        if m.requirements.weightsBytes = 0 then size else m.requirements.weightsBytes } }

/-- The manifest is written and the cache dropped. -/
def record (env : Env) (io : Faults) (st : Store) (manifest : Manifest) :
    Store × Except Text Manifest :=
  match io.write with
  | .error e => (st, .error e)
  | .ok () => ((st.written env (env.manifestPath manifest.name) manifest).invalidate, .ok manifest)

/-- The bytes of the staged file, by its digest. -/
def verify (env : Env) (io : Faults) (st : Store) (staged expected : Text) :
    Store × Except Text (List UInt8 × Text) :=
  if ¬ startsWith staged env.stagingDir then (st, .error (notStagedText staged))
  else
    match st.bytesAt env staged, io.hash with
    | none, _ => (st, .error (hashingText staged noFileText))
    | some _, .error e => (st, .error (hashingText staged e))
    | some bytes, .ok () =>
      if env.digestOf bytes ≠ expected then
        (st.removeFile env io.drop staged, .error (mismatchText expected (env.digestOf bytes)))
      else
        match io.metadata, hexOf env.isEscaped (env.digestOf bytes) with
        | .error e, _ => (st, .error e)
        | .ok (), .error e => (st, .error e)
        | .ok (), .ok hex => (st, .ok (bytes, hex))

/-- The weights are moved into the store, or dropped if it has them. -/
def place (env : Env) (io : Faults) (st : Store) (staged hex : Text) (bytes : List UInt8) :
    Except Text Store :=
  if hex ∈ st.blobs then .ok (st.removeFile env io.drop staged)
  else
    match io.rename with
    | .error e => .error (movingText e)
    | .ok () =>
      let st := st.without env staged
      .ok { st with blobs := st.blobs.insert hex bytes }

/-- `accept_staged` -/
def acceptStaged (env : Env) (io : Faults) (st : Store) (staged : Text) (manifest : Manifest)
    (expected : Text) : Store × Except Text Manifest :=
  match verify env io st staged expected with
  | (st, .error e) => (st, .error e)
  | (st, .ok (bytes, hex)) =>
    match place env io st staged hex bytes with
    | .error e => (st, .error e)
    | .ok st => record env io st (manifest.measured (env.digestOf bytes) bytes.length)

/-! ### Registering and removing -/

def notRemoteText (isEscaped : Char → Bool) (manifest : Manifest) : Text :=
  "register_remote called for ".toList ++ manifest.name ++ " which is format ".toList ++
    Turn.quoted isEscaped manifest.format

/-- `register_remote` -/
def registerRemote (env : Env) (io : Faults) (st : Store) (manifest : Manifest) :
    Store × Except Text Manifest :=
  if ¬ manifest.isRemote then (st, .error (notRemoteText env.isEscaped manifest))
  else record env io st manifest

def noModelText (isEscaped : Char → Bool) (name : Text) : Text :=
  "no model named ".toList ++ Turn.quoted isEscaped name

/-- The weights go if nothing that is listed refers to them. -/
def release (env : Env) (unlinkBlob : Except Text Unit) (st : Store) (manifest : Manifest)
    (listed : List Manifest) : Store :=
  if (listed.any fun m => m.digest = manifest.digest) ∨ manifest.isRemote then st
  else
    match hexOf env.isEscaped manifest.digest with
    | .ok hex => st.removeBlob unlinkBlob hex
    | .error _ => st

/-- `remove` -/
def remove (env : Env) (io : Faults) (st : Store) (name : Text) : Store × Except Text Unit :=
  match st.readManifest env (env.manifestPath name), io.unlink with
  | none, _ => (st, .error (noModelText env.isEscaped name))
  | some _, .error e => (st, .error e)
  | some manifest, .ok () =>
    let (listed, st) := systemManifests (st.without env (env.manifestPath name)).invalidate
    (release env io.unlinkBlob st manifest listed, .ok ())

/-! ### Calls -/

inductive Call where
  | accept (io : Faults) (staged : Text) (manifest : Manifest) (expected : Text)
  | register (io : Faults) (manifest : Manifest)
  | remove (io : Faults) (name : Text)
  /-- The fetch helper puts a file somewhere, outside the two directories. -/
  | stage (place : List Text) (bytes : List UInt8)

def Call.apply (env : Env) (st : Store) : Call → Store
  | .accept io staged manifest expected => (acceptStaged env io st staged manifest expected).1
  | .register io manifest => (registerRemote env io st manifest).1
  | .remove io name => (Registry.remove env io st name).1
  | .stage place bytes => { st with files := st.files.insert place bytes }

/-- One call after the other. -/
def callStep (env : Env) (st : Store) (call : Call) : Option Store := some (call.apply env st)

end AiDaemon.Registry
