import AiDaemon.RegistryBlobs

/-!
# Calls on the registry, step by step (`registry.rs`)

`accept_staged`, `remove` and `list` take no lock for longer than it takes to
look at the cache.  Between two steps of one call any other may take its own:
another acceptance may find weights that a removal has already decided to take
away, and the manifests that `list` has read may reach the cache when others
have been written.  A call that is alone does what `Registry` says of it
(`accept_alone`, `remove_alone`).
-/

namespace AiDaemon.Registry

open Ledger UnixPath ContentStore Transition

/-! ### The steps of a call -/

/-- Where `system_manifests` stands: before it has looked at the cache, before it has
    listed the directory, or with the files it has yet to read and the manifests it has
    got. -/
inductive Scan where
  | look
  | listing
  | reading (todo : List Text) (got : List Manifest)

def Scan.next (st : Store) : Scan → Store × (Scan ⊕ List Manifest)
  | .look =>
    match st.cache with
    | some cached => (st, .inr cached)
    | none => (st, .inl .listing)
  | .listing => (st, .inl (.reading st.manifests.keys []))
  | .reading (stem :: todo) got =>
    (st, .inl (.reading todo (got ++ (st.manifests.lookup stem).toList)))
  | .reading [] got =>
    let manifests := got.mergeSort Manifest.le
    ({ st with cache := some manifests }, .inr manifests)

/-- What is to be accepted, once its digest is known. -/
structure Measured where
  staged : Text
  manifest : Manifest
  hex : Text
  digest_eq : manifest.digest = sha256 ++ hex

def Measured.of (isEscaped : Char → Bool) (staged : Text) (manifest : Manifest) (digest : Text)
    (size : Nat) : Option Measured :=
  match hhex : hexOf isEscaped digest with
  | .ok hex => some ⟨staged, manifest.measured digest size, hex, eq_of_hexOf hhex⟩
  | .error _ => none

theorem Measured.of_ok {isEscaped : Char → Bool} {digest hex : Text} (staged : Text)
    (manifest : Manifest) (size : Nat) (h : hexOf isEscaped digest = .ok hex) :
    Measured.of isEscaped staged manifest digest size =
      some ⟨staged, manifest.measured digest size, hex, eq_of_hexOf h⟩ := by
  rw [Measured.of]
  split
  · next hhex =>
    cases h.symm.trans hhex
    rfl
  · next hhex => cases h.symm.trans hhex

theorem Measured.of_error {isEscaped : Char → Bool} {digest e : Text} (staged : Text)
    (manifest : Manifest) (size : Nat) (h : hexOf isEscaped digest = .error e) :
    Measured.of isEscaped staged manifest digest size = none := by
  rw [Measured.of]
  split
  · next hhex => cases h.symm.trans hhex
  · rfl

/-- What a call in progress does next. -/
inductive Progress where
  /-- `accept_staged` -/
  | hash (staged : Text) (manifest : Manifest) (expected : Text)
  | mismatch (staged : Text)
  | measure (staged : Text) (manifest : Manifest) (digest : Text)
  | probe (m : Measured)
  | drop (m : Measured)
  | rename (m : Measured)
  | write (m : Measured)
  | invalidate
  /-- `remove` -/
  | read (name : Text)
  | unlink (name : Text) (manifest : Manifest)
  | forget (manifest : Manifest)
  | scanning (manifest : Manifest) (scan : Scan)
  | release (manifest : Manifest) (listed : List Manifest)
  /-- `list` -/
  | list (scan : Scan)

/-- The file at a path is renamed to weights, if it is still there. -/
def Store.moved (st : Store) (env : Env) (path hex : Text) : Option Store :=
  (st.bytesAt env path).map fun bytes =>
    let st := st.without env path
    { st with blobs := st.blobs.insert hex bytes }

/-- One step of a call, with what the file system answers to it. -/
def Progress.next (env : Env) (answer : Except Text Unit) (st : Store) :
    Progress → Store × Option Progress
  | .hash staged manifest expected =>
    if ¬ startsWith staged env.stagingDir then (st, none)
    else
      match st.bytesAt env staged, answer with
      | some bytes, .ok () =>
        (st, some (if env.digestOf bytes ≠ expected then .mismatch staged
          else .measure staged manifest (env.digestOf bytes)))
      | _, _ => (st, none)
  | .mismatch staged => (st.removeFile env answer staged, none)
  | .measure staged manifest digest =>
    match st.bytesAt env staged, answer with
    | some bytes, .ok () =>
      (st, (Measured.of env.isEscaped staged manifest digest bytes.length).map .probe)
    | _, _ => (st, none)
  | .probe m => (st, some (if m.hex ∈ st.blobs then .drop m else .rename m))
  | .drop m => (st.removeFile env answer m.staged, some (.write m))
  | .rename m =>
    match st.moved env m.staged m.hex, answer with
    | some st, .ok () => (st, some (.write m))
    | _, _ => (st, none)
  | .write m =>
    match answer with
    | .ok () => (st.written env (env.manifestPath m.manifest.name) m.manifest, some .invalidate)
    | .error _ => (st, none)
  | .invalidate => (st.invalidate, none)
  | .read name => (st, (st.readManifest env (env.manifestPath name)).map (.unlink name))
  | .unlink name manifest =>
    match st.bytesAt env (env.manifestPath name), answer with
    | some _, .ok () => (st.without env (env.manifestPath name), some (.forget manifest))
    | _, _ => (st, none)
  | .forget manifest => (st.invalidate, some (.scanning manifest .look))
  | .scanning manifest scan =>
    match scan.next st with
    | (st, .inl scan) => (st, some (.scanning manifest scan))
    | (st, .inr listed) => (st, some (.release manifest listed))
  | .release manifest listed => (Registry.release env answer st manifest listed, none)
  | .list scan =>
    match scan.next st with
    | (st, .inl scan) => (st, some (.list scan))
    | (st, .inr _) => (st, none)

/-! ### Interleavings -/

/-- The store, and the calls in progress. -/
structure Daemon where
  store : Store
  calls : Table Nat Progress

inductive Act where
  | accept (call : Nat) (staged : Text) (manifest : Manifest) (expected : Text)
  | remove (call : Nat) (name : Text)
  | list (call : Nat)
  | next (call : Nat) (answer : Except Text Unit)
  | stage (place : List Text) (bytes : List UInt8)

def Daemon.begin (st : Daemon) (call : Nat) (progress : Progress) : Option Daemon :=
  if call ∈ st.calls then none else some { st with calls := st.calls.insert call progress }

def daemonStep (env : Env) (st : Daemon) : Act → Option Daemon
  | .accept call staged manifest expected => st.begin call (.hash staged manifest expected)
  | .remove call name => st.begin call (.read name)
  | .list call => st.begin call (.list .look)
  | .next call answer =>
    (st.calls.lookup call).map fun progress =>
      match progress.next env answer st.store with
      | (store, some progress) => ⟨store, st.calls.insert call progress⟩
      | (store, none) => ⟨store, st.calls.erase call⟩
  | .stage place bytes =>
    some { st with store := { st.store with files := st.store.files.insert place bytes } }

/-! ### A call by itself -/

/-- A call goes on by itself to its end. -/
def Progress.finish (env : Env) : List (Except Text Unit) → Store → Progress → Option Store
  | [], _, _ => none
  | answer :: answers, st, progress =>
    match progress.next env answer st with
    | (st, some progress) => progress.finish env answers st
    | (st, none) => if answers = [] then some st else none

theorem runs_of_finish {env : Env} {answers : List (Except Text Unit)} {st st' : Store}
    {progress : Progress} (call : Nat) (h : progress.finish env answers st = some st') :
    runs (daemonStep env) ⟨st, AList.singleton call progress⟩ (answers.map (.next call)) =
      some ⟨st', ∅⟩ := by
  induction answers generalizing st progress with
  | nil => cases h
  | cons answer answers ih =>
    have hself :
      (AList.singleton call progress : Table Nat Progress).lookup call = some progress := by
      rw [← AList.insert_empty, AList.lookup_insert]
    rw [Progress.finish] at h
    rw [List.map_cons, runs, daemonStep, hself, Option.map_some]
    dsimp only
    split at h
    · rw [AList.insert_singleton_eq]
      exact ih h
    · split at h
      · next hnil =>
        have hempty : (AList.singleton call progress : Table Nat Progress).erase call = ∅ :=
          AList.ext (List.kerase_cons_eq rfl)
        cases h
        subst hnil
        rw [hempty]
        rfl
      · cases h

/-- **Accepting, taken by itself**, is `accept_staged`. -/
theorem accept_alone (env : Env) (io : Faults) (st : Store) (call : Nat) (staged : Text)
    (manifest : Manifest) (expected : Text) : ∃ answers : List (Except Text Unit),
      runs (daemonStep env) ⟨st, ∅⟩
          (.accept call staged manifest expected :: answers.map (.next call)) =
        some ⟨(acceptStaged env io st staged manifest expected).1, ∅⟩ := by
  suffices h : ∃ answers, Progress.finish env answers st (.hash staged manifest expected) =
      some (acceptStaged env io st staged manifest expected).1 by
    obtain ⟨answers, h⟩ := h
    exact ⟨answers, runs_of_finish call h⟩
  rw [acceptStaged, verify]
  by_cases hstaged : startsWith staged env.stagingDir
  case neg => exact ⟨[.ok ()], by simp [Progress.finish, Progress.next, hstaged]⟩
  rw [if_neg (not_not.mpr hstaged)]
  cases hbytes : st.bytesAt env staged with
  | none => exact ⟨[.ok ()], by simp [Progress.finish, Progress.next, hstaged, hbytes]⟩
  | some bytes =>
  cases hhash : io.hash with
  | error e => exact ⟨[.error e], by simp [Progress.finish, Progress.next, hstaged, hbytes]⟩
  | ok =>
  dsimp only
  by_cases hdigest : env.digestOf bytes = expected
  case neg =>
    exact ⟨[.ok (), io.drop], by simp [Progress.finish, Progress.next, hstaged, hbytes, hdigest]⟩
  subst hdigest
  rw [if_neg (not_not.mpr rfl)]
  cases hmetadata : io.metadata with
  | error e => exact ⟨[.ok (), .error e], by simp [Progress.finish, Progress.next, hstaged, hbytes]⟩
  | ok =>
  cases hhex : hexOf env.isEscaped (env.digestOf bytes) with
  | error e =>
    exact ⟨[.ok (), .ok ()], by
      simp [Progress.finish, Progress.next, hstaged, hbytes, Measured.of_error _ _ _ hhex]⟩
  | ok hex =>
  have hmeasured := Measured.of_ok staged manifest bytes.length hhex
  have hrecord : ∀ st' : Store, ∃ answers, Progress.finish env answers st' (.write
      ⟨staged, manifest.measured (env.digestOf bytes) bytes.length, hex, eq_of_hexOf hhex⟩) =
      some (record env io st' (manifest.measured (env.digestOf bytes) bytes.length)).1 := by
    intro st'
    rw [record]
    cases io.write with
    | error e => exact ⟨[.error e], rfl⟩
    | ok => exact ⟨[.ok (), .ok ()], rfl⟩
  dsimp only
  rw [place]
  by_cases hmem : hex ∈ st.blobs
  · obtain ⟨answers, hanswers⟩ := hrecord (st.removeFile env io.drop staged)
    rw [if_pos hmem]
    refine ⟨[.ok (), .ok (), .ok (), io.drop] ++ answers, ?_⟩
    simp [Progress.finish, Progress.next, hstaged, hbytes, hmeasured, hmem, hanswers]
  · rw [if_neg hmem]
    cases hrename : io.rename with
    | error e =>
      refine ⟨[.ok (), .ok (), .ok (), .error e], ?_⟩
      simp [Progress.finish, Progress.next, hstaged, hbytes, hmeasured, hmem, Store.moved]
    | ok =>
      obtain ⟨answers, hanswers⟩ := hrecord
        { st.without env staged with blobs := (st.without env staged).blobs.insert hex bytes }
      refine ⟨[.ok (), .ok (), .ok (), .ok ()] ++ answers, ?_⟩
      simp [Progress.finish, Progress.next, hstaged, hbytes, hmeasured, hmem, Store.moved, hanswers]

/-- The manifests of some files. -/
def Store.read (st : Store) (stems : List Text) : List Manifest :=
  stems.flatMap fun stem => (st.manifests.lookup stem).toList

theorem read_keys (st : Store) : st.read st.manifests.keys = values st.manifests := by
  have hread : ∀ rows : List (Row Text Manifest), (∀ row ∈ rows, row ∈ st.manifests.entries) →
      st.read (rows.map Sigma.fst) = rows.map Sigma.snd := by
    intro rows hrows
    induction rows with
    | nil => rfl
    | cons row rows ih =>
      have hlookup := mem_entries_iff.mp (hrows row List.mem_cons_self)
      rw [List.map_cons, Store.read, List.flatMap_cons, hlookup, Option.toList_some, List.map_cons,
        List.singleton_append]
      exact congrArg _ (ih fun row hmem => hrows row (List.mem_cons_of_mem _ hmem))
  exact hread st.manifests.entries fun row hmem => hmem

/-- Reading the files that are left, and then filling the cache. -/
theorem finish_reading (env : Env) (st : Store) {st' : Store} (answers : List (Except Text Unit))
    (manifest : Manifest) (todo : List Text) (got : List Manifest)
    (h : Progress.finish env answers
        { st with cache := some ((got ++ st.read todo).mergeSort Manifest.le) }
        (.release manifest ((got ++ st.read todo).mergeSort Manifest.le)) = some st') :
    Progress.finish env (todo.map (fun _ => .ok ()) ++ .ok () :: answers) st
      (.scanning manifest (.reading todo got)) = some st' := by
  induction todo generalizing got with
  | nil =>
    rw [Store.read, List.flatMap_nil, List.append_nil] at h
    exact h
  | cons stem todo ih =>
    rw [Store.read, List.flatMap_cons, ← List.append_assoc] at h
    exact ih (got ++ (st.manifests.lookup stem).toList) h

/-- **Removing, taken by itself**, is `remove`. -/
theorem remove_alone (env : Env) (io : Faults) (st : Store) (call : Nat) (name : Text) :
    ∃ answers : List (Except Text Unit),
      runs (daemonStep env) ⟨st, ∅⟩ (.remove call name :: answers.map (.next call)) =
        some ⟨(remove env io st name).1, ∅⟩ := by
  suffices h : ∃ answers, Progress.finish env answers st (.read name) =
      some (remove env io st name).1 by
    obtain ⟨answers, h⟩ := h
    exact ⟨answers, runs_of_finish call h⟩
  cases hread : st.readManifest env (env.manifestPath name) with
  | none =>
    rw [remove, hread]
    exact ⟨[.ok ()], by simp [Progress.finish, Progress.next, hread]⟩
  | some manifest =>
  have hbytes : ∃ bytes, st.bytesAt env (env.manifestPath name) = some bytes := by
    rw [Store.readManifest] at hread
    split at hread
    · next stem hplace =>
      rw [Store.bytesAt, hplace]
      dsimp only
      rw [hread]
      exact ⟨_, rfl⟩
    · obtain ⟨bytes, hbytes, -⟩ := Option.bind_eq_some_iff.mp hread
      exact ⟨bytes, hbytes⟩
  obtain ⟨bytes, hbytes⟩ := hbytes
  cases hunlink : io.unlink with
  | error e =>
    rw [remove, hread, hunlink]
    exact ⟨[.ok (), .error e], by simp [Progress.finish, Progress.next, hread, hbytes]⟩
  | ok =>
  rw [remove_eq hread hunlink]
  -- One answer for each file that is still there, and one for the cache.
  let st' := st.without env (env.manifestPath name)
  have hreading := finish_reading env st'.invalidate [io.unlinkBlob] manifest st'.manifests.keys []
    rfl
  have hlisted : [] ++ st'.invalidate.read st'.manifests.keys = values st'.manifests :=
    read_keys st'.invalidate
  rw [hlisted] at hreading
  have hunlinked : Progress.next env (.ok ()) st (.unlink name manifest) =
      (st', some (.forget manifest)) := by
    rw [Progress.next.eq_def]
    dsimp only
    rw [hbytes]
  refine ⟨[.ok (), .ok (), .ok (), .ok (), .ok ()] ++
    (st'.manifests.keys.map (fun _ => .ok ()) ++ [.ok (), io.unlinkBlob]), ?_⟩
  rw [List.cons_append, Progress.finish, Progress.next, hread, Option.map_some]
  dsimp only
  rw [List.cons_append, Progress.finish, hunlinked]
  exact hreading

end AiDaemon.Registry
