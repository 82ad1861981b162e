import AiDaemon.RegistryCalls

/-!
# Manifests and their weights under concurrent calls (`registry.rs`)

A local manifest keeps its weights in every run in which no step takes weights
away that are in use (`weights_kept`).  `remove` does not see to that: it decides
by a list that may be old, and knows nothing of the calls that have found their
weights and not yet written their manifest (`removal_beside_acceptance`).
-/

namespace AiDaemon.Registry

open Ledger UnixPath ContentStore Transition

/-! ### What is in use and what is taken away -/

/-- The weights that a path leads to. -/
def Env.weightsAt (env : Env) (path : Text) : Option Text :=
  match env.placeOf path with
  | .weights file => some file
  | _ => none

/-- The weights a step takes away. -/
def Progress.takes (env : Env) (answer : Except Text Unit) (progress : Progress) : Option Text :=
  if works answer then
    match progress with
    | .mismatch staged => env.weightsAt staged
    | .drop m => env.weightsAt m.staged
    | .rename m => (env.weightsAt m.staged).filter (· ≠ m.hex)
    | .unlink name _ => env.weightsAt (env.manifestPath name)
    | .release manifest listed =>
      if (listed.any fun m => m.digest = manifest.digest) ∨ manifest.isRemote then none
      else (hexOf env.isEscaped manifest.digest).toOption
    | _ => none
  else none

/-- The weights that a call has found or moved and is going to name. -/
def Progress.countsOn : Progress → Option Text
  | .drop m | .write m => m.manifest.weights
  | _ => none

/-- A local manifest names the weights, or a call is going to. -/
def Daemon.InUse (st : Daemon) (file : Text) : Prop :=
  (∃ m ∈ values st.store.manifests, m.weights = some (sha256 ++ file)) ∨
    ∃ progress ∈ values st.calls, progress.countsOn = some (sha256 ++ file)

instance (st : Daemon) (file : Text) : Decidable (st.InUse file) :=
  inferInstanceAs (Decidable (_ ∨ _))

/-- A step takes no weights away that are in use. -/
def Spares (env : Env) (st : Daemon) : Act → Prop
  | .next call answer =>
    ∀ progress ∈ st.calls.lookup call, ∀ file ∈ progress.takes env answer, ¬ st.InUse file
  | _ => True

instance (env : Env) (st : Daemon) : ∀ act, Decidable (Spares env st act)
  | .next call answer => inferInstanceAs (Decidable
      (∀ progress ∈ st.calls.lookup call, ∀ file ∈ progress.takes env answer, ¬ st.InUse file))
  | .accept _ _ _ _ => inferInstanceAs (Decidable True)
  | .remove _ _ => inferInstanceAs (Decidable True)
  | .list _ => inferInstanceAs (Decidable True)
  | .stage _ _ => inferInstanceAs (Decidable True)

variable {env : Env} {st : Store} {answer : Except Text Unit}

/-! ### One step of a call -/

theorem without_named {path d : Text} (h : d ∈ Named (st.without env path).refs) :
    d ∈ Named st.refs := by
  rw [Store.without] at h
  split at h
  · exact h
  · next stem _ =>
    rw [refs_erase] at h
    rcases (named_update _ _ _ _).mp h with heq | ⟨other, -, hother⟩
    · cases heq
    · exact ⟨other, hother⟩
  · exact h

theorem without_digests {path d : Text} (h : d ∈ st.digests)
    (hspared : ∀ file ∈ env.weightsAt path, d ≠ sha256 ++ file) :
    d ∈ (st.without env path).digests := by
  rw [Store.without]
  rw [Env.weightsAt] at hspared
  split
  · next file hplace =>
    rw [hplace] at hspared
    rw [digests_erase]
    exact ⟨h, hspared file rfl⟩
  · exact h
  · exact h

theorem written_named {path d : Text} {m : Manifest}
    (h : d ∈ Named (st.written env path m).refs) : d ∈ Named st.refs ∨ m.weights = some d := by
  rw [Store.written] at h
  split at h
  · exact .inl h
  · rw [refs_insert] at h
    rcases (named_update _ _ _ _).mp h with heq | ⟨other, -, hother⟩
    · exact .inr heq
    · exact .inl ⟨other, hother⟩
  · exact .inl h

theorem written_digests {path d : Text} {m : Manifest} (h : d ∈ st.digests) :
    d ∈ (st.written env path m).digests := by
  rw [Store.written]
  split
  · rw [digests_insert]
    exact .inl h
  · exact h
  · exact h

theorem removeFile_named {path d : Text} (h : d ∈ Named (st.removeFile env answer path).refs) :
    d ∈ Named st.refs := by
  rw [Store.removeFile] at h
  split at h
  · exact without_named h
  · exact h

theorem removeFile_digests {path d : Text} (h : d ∈ st.digests)
    (hspared : works answer → ∀ file ∈ env.weightsAt path, d ≠ sha256 ++ file) :
    d ∈ (st.removeFile env answer path).digests := by
  rw [Store.removeFile]
  split
  · next hworks => exact without_digests h (hspared hworks)
  · exact h

theorem release_refs {manifest : Manifest} {listed : List Manifest} :
    (release env answer st manifest listed).refs = st.refs := by
  rcases release_cases env answer with ⟨hsame, -⟩ | ⟨hex, -, -, hgone⟩
  · rw [hsame]
  · rw [hgone]
    rfl

variable (st) in
theorem scan_refs (scan : Scan) : (scan.next st).1.refs = st.refs := by
  rw [Scan.next.eq_def]
  split
  · split <;> rfl
  · rfl
  · rfl
  · rfl

variable (st) in
theorem scan_digests (scan : Scan) : (scan.next st).1.digests = st.digests := by
  rw [Scan.next.eq_def]
  split
  · split <;> rfl
  · rfl
  · rfl
  · rfl

/-- What one step of a call can do: name what it has counted on, take away what it
    takes, and count on what is there or what it has counted on before. -/
structure Stepped (env : Env) (answer : Except Text Unit) (st : Store) (progress : Progress)
    (out : Store × Option Progress) : Prop where
  named : ∀ d ∈ Named out.1.refs, d ∈ Named st.refs ∨ progress.countsOn = some d
  kept : ∀ d ∈ st.digests, (∀ file ∈ progress.takes env answer, d ≠ sha256 ++ file) →
    d ∈ out.1.digests
  counted : ∀ next ∈ out.2, ∀ d ∈ next.countsOn, d ∈ out.1.digests ∨ progress.countsOn = some d

/-- A step that names nothing and takes nothing away, and then counts on nothing. -/
theorem Stepped.quiet {progress : Progress} {out : Store × Option Progress}
    (hrefs : out.1.refs = st.refs) (hdigests : out.1.digests = st.digests)
    (hnext : ∀ next ∈ out.2, next.countsOn = none) : Stepped env answer st progress out where
  named d hd := by
    rw [hrefs] at hd
    exact .inl hd
  kept d hd _ := by rwa [hdigests]
  counted next hmem d hd := by
    rw [hnext next hmem] at hd
    cases hd

/-- A last step that names nothing and takes nothing away. -/
theorem Stepped.last {progress : Progress} {st' : Store} (hrefs : st'.refs = st.refs)
    (hdigests : st'.digests = st.digests) : Stepped env answer st progress (st', none) := by
  refine .quiet hrefs hdigests fun next hmem => ?_
  cases hmem

theorem Measured.eq_of_weights {m : Measured} {d : Text} (h : m.manifest.weights = some d) :
    d = sha256 ++ m.hex :=
  (Manifest.digest_of_weights h).symm.trans m.digest_eq

theorem mismatch_stepped {staged : Text} :
    Stepped env answer st (.mismatch staged) (Progress.next env answer st (.mismatch staged)) where
  named d hd := .inl (removeFile_named hd)
  kept d hd hspared := by
    refine removeFile_digests hd fun hworks file hmem => hspared file ?_
    have htakes : Progress.takes env answer (.mismatch staged) = env.weightsAt staged :=
      if_pos hworks
    rwa [htakes]
  counted next hmem := by cases hmem

theorem drop_stepped {m : Measured} :
    Stepped env answer st (.drop m) (Progress.next env answer st (.drop m)) where
  named d hd := .inl (removeFile_named hd)
  kept d hd hspared := by
    refine removeFile_digests hd fun hworks file hmem => hspared file ?_
    have htakes : Progress.takes env answer (.drop m) = env.weightsAt m.staged := if_pos hworks
    rwa [htakes]
  counted next hmem d hd := by
    cases hmem
    exact .inr hd

theorem probe_stepped {m : Measured} :
    Stepped env answer st (.probe m) (Progress.next env answer st (.probe m)) where
  named d hd := .inl hd
  kept d hd _ := hd
  counted next hmem d hd := by
    cases hmem
    split at hd
    · next hhex =>
      refine .inl ?_
      rw [Measured.eq_of_weights hd]
      exact mem_digests.mpr hhex
    · cases hd

theorem rename_stepped {m : Measured} :
    Stepped env answer st (.rename m) (Progress.next env answer st (.rename m)) := by
  rw [Progress.next.eq_def]
  dsimp only
  split
  · next st' hmoved =>
    obtain ⟨bytes, -, rfl⟩ := Option.map_eq_some_iff.mp hmoved
    constructor
    · intro d hd
      exact .inl (without_named hd)
    · intro d hd hspared
      refine (digests_insert m.hex bytes).symm.subset ?_
      by_cases hsame : d = sha256 ++ m.hex
      · exact .inr hsame
      · refine .inl (without_digests hd fun file hfile heq => hspared file ?_ heq)
        have htakes : Progress.takes env (.ok ()) (.rename m) =
          (env.weightsAt m.staged).filter (· ≠ m.hex) := if_pos rfl
        rw [htakes, Option.mem_filter_iff]
        refine ⟨hfile, decide_eq_true fun hhex => hsame ?_⟩
        rw [heq, hhex]
    · intro next hmem d hd
      cases hmem
      refine .inl ((digests_insert m.hex bytes).symm.subset (.inr ?_))
      exact Measured.eq_of_weights hd
  · exact .last rfl rfl

theorem unlink_stepped {name : Text} {manifest : Manifest} :
    Stepped env answer st (.unlink name manifest)
      (Progress.next env answer st (.unlink name manifest)) := by
  rw [Progress.next.eq_def]
  dsimp only
  split
  · constructor
    · intro d hd
      exact .inl (without_named hd)
    · intro d hd hspared
      exact without_digests hd fun file hfile => hspared file hfile
    · intro next hmem d hd
      cases hmem
      cases hd
  · exact .last rfl rfl

theorem write_stepped {m : Measured} :
    Stepped env answer st (.write m) (Progress.next env answer st (.write m)) := by
  rw [Progress.next.eq_def]
  dsimp only
  split
  · constructor
    · intro d hd
      exact written_named hd
    · intro d hd _
      exact written_digests hd
    · intro next hmem d hd
      cases hmem
      cases hd
  · exact .last rfl rfl

/-- What `remove` does in the end is to take the weights away that it takes. -/
theorem release_eq {manifest : Manifest} {listed : List Manifest} :
    release env answer st manifest listed =
      match Progress.takes env answer (.release manifest listed) with
      | some hex => { st with blobs := st.blobs.erase hex }
      | none => st := by
  rw [release, Progress.takes]
  split
  · simp
  · cases hexOf env.isEscaped manifest.digest with
    | error e => simp [Except.toOption]
    | ok hex =>
      dsimp only [Except.toOption]
      rw [Store.removeBlob]
      split <;> rfl

theorem release_stepped {manifest : Manifest} {listed : List Manifest} :
    Stepped env answer st (.release manifest listed)
      (Progress.next env answer st (.release manifest listed)) where
  named d hd := .inl (release_refs ▸ hd)
  kept d hd hspared := by
    refine (show d ∈ (release env answer st manifest listed).digests from ?_)
    rw [release_eq]
    split
    · next hex htakes =>
      rw [digests_erase]
      exact ⟨hd, hspared hex htakes⟩
    · exact hd
  counted next hmem := by cases hmem

variable (env answer st) in
theorem next_stepped (progress : Progress) :
    Stepped env answer st progress (progress.next env answer st) := by
  cases progress with
  | hash staged manifest expected =>
    rw [Progress.next.eq_def]
    dsimp only
    split
    · exact .last rfl rfl
    · split
      · refine .quiet rfl rfl fun next hmem => ?_
        cases hmem
        split <;> rfl
      · exact .last rfl rfl
  | mismatch => exact mismatch_stepped
  | measure staged manifest digest =>
    rw [Progress.next.eq_def]
    dsimp only
    split
    · refine .quiet rfl rfl fun next hmem => ?_
      obtain ⟨m, -, rfl⟩ := Option.map_eq_some_iff.mp hmem
      rfl
    · exact .last rfl rfl
  | probe => exact probe_stepped
  | drop => exact drop_stepped
  | rename => exact rename_stepped
  | write => exact write_stepped
  | invalidate => exact .last rfl rfl
  | read name =>
    refine .quiet rfl rfl fun next hmem => ?_
    obtain ⟨m, -, rfl⟩ := Option.map_eq_some_iff.mp hmem
    rfl
  | unlink => exact unlink_stepped
  | forget manifest =>
    refine .quiet rfl rfl fun next hmem => ?_
    cases hmem
    rfl
  | scanning manifest scan =>
    have hrefs := scan_refs st scan
    have hdigests := scan_digests st scan
    rw [Progress.next.eq_def]
    dsimp only
    split
    all_goals
      next hscan =>
      rw [hscan] at hrefs hdigests
      refine .quiet hrefs hdigests fun next hmem => ?_
      cases hmem
      rfl
  | release => exact release_stepped
  | list scan =>
    have hrefs := scan_refs st scan
    have hdigests := scan_digests st scan
    rw [Progress.next.eq_def]
    dsimp only
    split
    all_goals
      next hscan =>
      rw [hscan] at hrefs hdigests
      refine .quiet hrefs hdigests fun next hmem => ?_
      cases hmem
      try rfl

/-! ### Runs -/

/-- Every local manifest has its weights, and so has every call that counts on some. -/
structure Covered (st : Daemon) : Prop where
  held : Held st.store.refs st.store.digests
  counted : ∀ progress ∈ values st.calls, ∀ d ∈ progress.countsOn, d ∈ st.store.digests

theorem begin_covered {st st' : Daemon} {call : Nat} {progress : Progress} (h : Covered st)
    (hnone : progress.countsOn = none) (hbegin : st.begin call progress = some st') :
    Covered st' := by
  rw [Daemon.begin] at hbegin
  split at hbegin
  · cases hbegin
  · cases hbegin
    refine ⟨h.held, fun next hmem d hd => ?_⟩
    rcases mem_values_insert hmem with rfl | hmem
    · rw [hnone] at hd
      cases hd
    · exact h.counted next hmem d hd

theorem next_covered {st : Daemon} {call : Nat} {progress : Progress} (h : Covered st)
    (hlookup : st.calls.lookup call = some progress)
    (hspares : ∀ file ∈ progress.takes env answer, ¬ st.InUse file) {st' : Daemon}
    (hstore : st'.store = (progress.next env answer st.store).1)
    (hcalls : ∀ next ∈ values st'.calls,
      (progress.next env answer st.store).2 = some next ∨ next ∈ values st.calls) :
    Covered st' := by
  have hstep := next_stepped env st.store answer progress
  have hself : progress ∈ values st.calls := mem_values_iff.mpr ⟨call, hlookup⟩
  have hkept : ∀ d ∈ st.store.digests, d ∈ Named st.store.refs ∨
      (∃ p ∈ values st.calls, p.countsOn = some d) → d ∈ st'.store.digests := by
    intro d hd huse
    rw [hstore]
    refine hstep.kept d hd fun file hfile heq => hspares file hfile ?_
    subst heq
    rwa [Daemon.InUse, ← named_iff_values]
  have hcounts : ∀ p ∈ values st.calls, ∀ d ∈ p.countsOn, d ∈ st'.store.digests := by
    intro p hp d hd
    exact hkept d (h.counted p hp d hd) (.inr ⟨p, hp, hd⟩)
  constructor
  · intro d hd
    rw [hstore] at hd
    rcases hstep.named d hd with hd | hd
    · exact hkept d (h.held hd) (.inl hd)
    · exact hcounts progress hself d hd
  · intro next hmem d hd
    rcases hcalls next hmem with hnext | hmem
    · rcases hstep.counted next hnext d hd with hd | hd
      · rwa [hstore]
      · exact hcounts progress hself d hd
    · exact hcounts next hmem d hd

theorem step_covered (st : Daemon) (act : Act) (st' : Daemon) (h : Covered st)
    (hspares : Spares env st act) (hstep : daemonStep env st act = some st') : Covered st' := by
  cases act with
  | accept call staged manifest expected => exact begin_covered h rfl hstep
  | remove call name => exact begin_covered h rfl hstep
  | list call => exact begin_covered h rfl hstep
  | stage place bytes =>
    cases hstep
    exact ⟨h.held, h.counted⟩
  | next call answer =>
    obtain ⟨progress, hlookup, hnext⟩ := Option.map_eq_some_iff.mp hstep
    have hspares := hspares progress hlookup
    refine next_covered h hlookup hspares ?_ ?_
    · rw [← hnext]
      split
      · next hout => rw [hout]
      · next hout => rw [hout]
    · intro next hmem
      rw [← hnext] at hmem
      split at hmem
      · next hout =>
        rw [hout]
        rcases mem_values_insert hmem with rfl | hmem
        · exact .inl rfl
        · exact .inr hmem
      · exact .inr (mem_values_erase hmem)

/-- **No local manifest is without its weights** in any state, whichever calls are in
    progress, as long as no step takes away what is in use. -/
theorem weights_kept (store : Store) (hheld : Held store.refs store.digests) (acts : List Act)
    (hspares : along (daemonStep env) (Spares env) ⟨store, ∅⟩ acts) {st : Daemon}
    (hrun : runs (daemonStep env) ⟨store, ∅⟩ acts = some st) :
    Held st.store.refs st.store.digests := by
  refine (show Covered st from ?_).held
  apply runs_invariant_along (daemonStep env) step_covered ?_ hspares hrun
  refine ⟨hheld, fun progress hmem => ?_⟩
  cases hmem

/-! ### Two calls on the same weights -/

def stagedWeights : Text := join oneAndTwo.stagingDir "weights".toList

/-- The byte is staged, and a call begins to accept it under a name. -/
def accepting (call : Nat) (name : Text) : List Act :=
  let manifest := ⟨name, sha256 ++ oneHex, "gguf".toList, [], [], .none, [], [], []⟩
  [.stage (resolve oneAndTwo.cwd stagedWeights) [1],
    .accept call stagedWeights manifest (sha256 ++ oneHex)]

/-- A call takes some steps, none of which fails. -/
def going (call steps : Nat) : List Act := List.replicate steps (.next call (.ok ()))

/-- The second call begins while the first is under way and ends before it, and a third
    lists the manifests in between. -/
theorem weights_kept_side_by_side : ∃ st, runs (daemonStep oneAndTwo) ⟨Store.new ∅, ∅⟩
      (accepting 1 "a".toList ++ going 1 4 ++ accepting 2 "b".toList ++ going 2 5 ++ [.list 3] ++
        going 3 3 ++ going 1 2 ++ going 2 1 ++ going 3 1) = some st ∧
    Held st.store.refs st.store.digests := by
  obtain ⟨st, hst⟩ := Option.isSome_iff_exists.mp
    (show (runs (daemonStep oneAndTwo) ⟨Store.new ∅, ∅⟩
      (accepting 1 "a".toList ++ going 1 4 ++ accepting 2 "b".toList ++ going 2 5 ++ [.list 3] ++
        going 3 3 ++ going 1 2 ++ going 2 1 ++ going 3 1)).isSome by decide +kernel)
  have hheld : Held (Store.new ∅).refs (Store.new ∅).digests :=
    (show Sound oneAndTwo _ from new_sound ∅).tight.held
  exact ⟨st, hst, weights_kept (Store.new ∅) hheld _ (by decide +kernel) hst⟩

/-- A removal has seen that its weights are named no more; before it takes them away an
    acceptance finds them, and names them after. -/
theorem removal_beside_acceptance : ∃ st, runs (daemonStep oneAndTwo) ⟨Store.new ∅, ∅⟩
      (accepting 1 "a".toList ++ going 1 6 ++ [.remove 1 "a".toList] ++ going 1 6 ++
        accepting 2 "b".toList ++ going 2 4 ++ going 1 1 ++ going 2 2) = some st ∧
    st.calls.keys = [] ∧ ¬ Held st.store.refs st.store.digests := by
  have hrun : (runs (daemonStep oneAndTwo) ⟨Store.new ∅, ∅⟩
      (accepting 1 "a".toList ++ going 1 6 ++ [.remove 1 "a".toList] ++ going 1 6 ++
        accepting 2 "b".toList ++ going 2 4 ++ going 1 1 ++ going 2 2)).map
        (fun st => (st.calls.keys, st.store.blobs.keys,
          (values st.store.manifests).map Manifest.weights)) =
      some ([], [], [some (sha256 ++ oneHex)]) := by decide +kernel
  obtain ⟨st, hst, heq⟩ := Option.map_eq_some_iff.mp hrun
  obtain ⟨hcalls, heq⟩ := Prod.mk.inj heq
  obtain ⟨hblobs, hvalues⟩ := Prod.mk.inj heq
  refine ⟨st, hst, hcalls, fun hheld => ?_⟩
  have hmem : some (sha256 ++ oneHex) ∈ (values st.store.manifests).map Manifest.weights := by
    rw [hvalues]
    exact List.mem_singleton_self _
  obtain ⟨m, hm, hweights⟩ := List.mem_map.mp hmem
  have hthere := hheld ((named_iff_values _ _).mpr ⟨m, hm, hweights⟩)
  rw [mem_digests, AList.mem_keys, hblobs] at hthere
  cases hthere

end AiDaemon.Registry
