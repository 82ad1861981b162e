import AiDaemon.Registry
import AiDaemon.Transition

/-!
# The weights in the store

The weights in the store are exactly those that local manifests name as long as
every call is `Tidy` (`blobs_exact`): a manifest that is written over, or that
was to be written, leaves no weights behind, one that is removed takes the last
weights of their digest with it, and nothing is staged in the store itself.
Installing other weights under a name that is taken is not tidy
(`reinstalling_leaves_weights`).
-/

namespace AiDaemon.Registry

open Ledger UnixPath ContentStore Transition

/-! ### What refers to what -/

/-- The weights a manifest names. -/
def Manifest.weights (m : Manifest) : Option Text := if m.isRemote then none else some m.digest

theorem Manifest.digest_of_weights {m : Manifest} {d : Text} (h : m.weights = some d) :
    m.digest = d := by
  rw [Manifest.weights] at h
  split at h
  · cases h
  · exact Option.some.inj h

/-- The weights that the manifest of a file names. -/
def Store.refs (st : Store) (stem : Text) : Option Text :=
  (st.manifests.lookup stem).bind Manifest.weights

/-- The digests of the weights in the store. -/
def Store.digests (st : Store) : Set Text := {d | ∃ hex, hex ∈ st.blobs ∧ d = sha256 ++ hex}

variable {env : Env} {st : Store}

theorem refs_insert (stem : Text) (m : Manifest) :
    Store.refs { st with manifests := st.manifests.insert stem m } =
      Function.update st.refs stem m.weights := by
  funext n
  by_cases hsame : n = stem
  · subst hsame
    rw [Function.update_self, Store.refs, AList.lookup_insert]
    rfl
  · rw [Function.update_of_ne hsame, Store.refs, AList.lookup_insert_ne hsame]
    rfl

theorem refs_erase (stem : Text) :
    Store.refs { st with manifests := st.manifests.erase stem } =
      Function.update st.refs stem none := by
  funext n
  by_cases hsame : n = stem
  · subst hsame
    rw [Function.update_self, Store.refs, AList.lookup_erase]
    rfl
  · rw [Function.update_of_ne hsame, Store.refs, AList.lookup_erase_ne hsame]
    rfl

theorem digests_insert (hex : Text) (bytes : List UInt8) :
    Store.digests { st with blobs := st.blobs.insert hex bytes } =
    st.digests ∪ {sha256 ++ hex} := by
  ext d
  simp only [Store.digests, Set.mem_ofPred_eq, AList.mem_insert, Set.mem_union,
    Set.mem_singleton_iff]
  constructor
  · rintro ⟨h, rfl | hmem, rfl⟩
    · exact .inr rfl
    · exact .inl ⟨h, hmem, rfl⟩
  · rintro (⟨h, hmem, rfl⟩ | rfl)
    · exact ⟨h, .inr hmem, rfl⟩
    · exact ⟨hex, .inl rfl, rfl⟩

theorem digests_erase (hex : Text) :
    Store.digests { st with blobs := st.blobs.erase hex } = st.digests \ {sha256 ++ hex} := by
  ext d
  simp only [Store.digests, Set.mem_ofPred_eq, AList.mem_erase, Set.mem_sdiff,
    Set.mem_singleton_iff]
  constructor
  · rintro ⟨h, ⟨hne, hmem⟩, rfl⟩
    exact ⟨⟨h, hmem, rfl⟩, fun heq => hne (List.append_cancel_left heq)⟩
  · rintro ⟨⟨h, hmem, rfl⟩, hne⟩
    exact ⟨h, ⟨fun heq => hne (by rw [heq]), hmem⟩, rfl⟩

theorem mem_digests {hex : Text} : sha256 ++ hex ∈ st.digests ↔ hex ∈ st.blobs := by
  constructor
  · rintro ⟨h, hmem, heq⟩
    rwa [List.append_cancel_left heq]
  · intro hmem
    exact ⟨hex, hmem, rfl⟩

variable (st) in
/-- What the manifests that are stored name. -/
theorem named_iff_values (d : Text) :
    d ∈ Named st.refs ↔ ∃ m ∈ values st.manifests, m.weights = some d := by
  constructor
  · rintro ⟨stem, hstem⟩
    obtain ⟨m, hm, hweights⟩ := Option.bind_eq_some_iff.mp hstem
    exact ⟨m, mem_values_iff.mpr ⟨stem, hm⟩, hweights⟩
  · rintro ⟨m, hm, hweights⟩
    obtain ⟨stem, hstem⟩ := mem_values_iff.mp hm
    exact ⟨stem, by rw [Store.refs, hstem]; exact hweights⟩

/-- The manifests but for one file. -/
def Store.beside (st : Store) (stem : Text) : List Manifest := values (st.manifests.erase stem)

/-- What the other manifests name. -/
theorem elsewhere_iff_beside {stem d : Text} :
    Elsewhere st.refs stem d ↔ ∃ m ∈ st.beside stem, m.weights = some d := by
  have h := named_iff_values { st with manifests := st.manifests.erase stem } d
  rw [Store.beside, ← h, refs_erase, named_update]
  simp

/-! ### What is found and taken in staging -/

/-- The weights that are staged, if the file is there, is what is expected, and can be
    read and measured. -/
def genuine (env : Env) (io : Faults) (st : Store) (staged expected : Text) : Option Text :=
  if startsWith staged env.stagingDir ∧ works io.hash ∧ works io.metadata ∧
      (st.bytesAt env staged).map env.digestOf = some expected then
    (hexOf env.isEscaped expected).toOption
  else none

/-- The weights that are in the store once the staged ones have been placed. -/
def brought (env : Env) (io : Faults) (st : Store) (staged expected : Text) : Option Text :=
  (genuine env io st staged expected).filter fun hex => hex ∈ st.blobs ∨ works io.rename

/-- The staged file is moved or removed. -/
def taken (env : Env) (io : Faults) (st : Store) (staged expected : Text) : Bool :=
  match genuine env io st staged expected with
  | some hex => if hex ∈ st.blobs then works io.drop else works io.rename
  | none =>
    startsWith staged env.stagingDir && works io.hash && works io.drop &&
      (st.bytesAt env staged).any fun bytes => env.digestOf bytes ≠ expected

/-- The manifests and the weights are as they were. -/
def Apart (st st' : Store) : Prop := st'.manifests = st.manifests ∧ st'.blobs = st.blobs

theorem refs_congr {st' : Store} (h : st'.manifests = st.manifests) : st'.refs = st.refs := by
  funext stem
  rw [Store.refs, h, Store.refs]

theorem Apart.refs {st' : Store} (h : Apart st st') : st'.refs = st.refs := refs_congr h.1

theorem Apart.digests {st' : Store} (h : Apart st st') : st'.digests = st.digests := by
  rw [Store.digests, h.2, Store.digests]

variable (st) in
theorem without_apart {path : Text} (h : env.placeOf path = .elsewhere) :
    Apart st (st.without env path) := by
  rw [Store.without, h]
  exact ⟨rfl, rfl⟩

variable {io : Faults} {staged expected : Text}

theorem genuine_eq_none
    (h : ¬ (startsWith staged env.stagingDir ∧ works io.hash ∧ works io.metadata ∧
      (st.bytesAt env staged).map env.digestOf = some expected)) :
    genuine env io st staged expected = none := if_neg h

/-- The store once the staged file has been moved or removed, if it is. -/
def handled (env : Env) (io : Faults) (st : Store) (staged expected : Text) : Store :=
  if taken env io st staged expected then st.without env staged else st

theorem handled_apart
    (hside : taken env io st staged expected → env.placeOf staged = .elsewhere) :
    Apart st (handled env io st staged expected) := by
  rw [handled]
  split
  · next htaken => exact without_apart st (hside htaken)
  · exact ⟨rfl, rfl⟩

theorem handled_eq_self (h : taken env io st staged expected = false) :
    handled env io st staged expected = st := by
  rw [handled, h]
  rfl

theorem verify_cases :
    (genuine env io st staged expected = none ∧ ∃ e,
        verify env io st staged expected = (handled env io st staged expected, .error e)) ∨
      ∃ hex bytes, genuine env io st staged expected = some hex ∧
        env.digestOf bytes = sha256 ++ hex ∧ hexOf env.isEscaped (sha256 ++ hex) = .ok hex ∧
          verify env io st staged expected = (st, .ok (bytes, hex)) := by
  rw [verify]
  by_cases hstaged : startsWith staged env.stagingDir
  case neg =>
    have hnone : genuine env io st staged expected = none := genuine_eq_none fun h => hstaged h.1
    refine .inl ⟨hnone, notStagedText staged, ?_⟩
    rw [if_pos hstaged, handled_eq_self (by simp [taken, hnone, hstaged])]
  rw [if_neg (not_not.mpr hstaged)]
  cases hbytes : st.bytesAt env staged with
  | none =>
    have hnone : genuine env io st staged expected = none := by
      refine genuine_eq_none fun h => ?_
      rw [hbytes] at h
      cases h.2.2.2
    refine .inl ⟨hnone, hashingText staged noFileText, ?_⟩
    rw [handled_eq_self (by simp [taken, hnone, hbytes])]
  | some bytes =>
    cases hhash : io.hash with
    | error e =>
      have hnone : genuine env io st staged expected = none := by
        refine genuine_eq_none fun h => ?_
        rw [hhash] at h
        cases h.2.1
      refine .inl ⟨hnone, hashingText staged e, ?_⟩
      rw [handled_eq_self (by simp [taken, hnone, hhash])]
    | ok =>
      by_cases hdigest : env.digestOf bytes = expected
      case neg =>
        have hnone : genuine env io st staged expected = none := by
          refine genuine_eq_none fun h => hdigest ?_
          rw [hbytes] at h
          exact Option.some.inj h.2.2.2
        have htaken : taken env io st staged expected = works io.drop := by
          simp [taken, hnone, hstaged, hhash, hbytes, hdigest]
        refine .inl ⟨hnone, mismatchText expected (env.digestOf bytes), ?_⟩
        rw [handled, htaken]
        exact if_pos hdigest
      have htaken_of_none (hnone : genuine env io st staged expected = none) :
          taken env io st staged expected = false := by
        simp [taken, hnone, hbytes, hdigest]
      dsimp only
      rw [if_neg (not_not.mpr hdigest)]
      cases hmetadata : io.metadata with
      | error e =>
        have hnone : genuine env io st staged expected = none := by
          refine genuine_eq_none fun h => ?_
          rw [hmetadata] at h
          cases h.2.2.1
        refine .inl ⟨hnone, e, ?_⟩
        rw [handled_eq_self (htaken_of_none hnone)]
      | ok =>
        have hgenuine :
          genuine env io st staged expected = (hexOf env.isEscaped expected).toOption := by
          refine if_pos ⟨hstaged, ?_, ?_, ?_⟩
          · rw [hhash, works_ok]
          · rw [hmetadata, works_ok]
          · rw [hbytes, Option.map_some, hdigest]
        rw [hdigest]
        cases hhex : hexOf env.isEscaped expected with
        | error e =>
          rw [hhex] at hgenuine
          refine .inl ⟨hgenuine, e, ?_⟩
          rw [handled_eq_self (htaken_of_none hgenuine)]
        | ok hex =>
          rw [hhex] at hgenuine
          have heq := eq_of_hexOf hhex
          refine .inr ⟨hex, bytes, hgenuine, by rw [hdigest, heq], by rw [← heq, hhex], rfl⟩

theorem digests_union_self {hex : Text} (h : hex ∈ st.blobs) :
    st.digests ∪ {sha256 ++ hex} = st.digests := by
  apply Set.union_eq_left.mpr
  apply Set.singleton_subset_iff.mpr
  exact mem_digests.mpr h

/-- The store once the weights are in it. -/
def placed (env : Env) (io : Faults) (st : Store) (staged expected hex : Text)
    (bytes : List UInt8) : Store :=
  let st' := handled env io st staged expected
  if hex ∈ st.blobs then st' else { st' with blobs := st'.blobs.insert hex bytes }

theorem place_cases {hex : Text} (bytes : List UInt8)
    (hgenuine : genuine env io st staged expected = some hex) :
    (brought env io st staged expected = none ∧ taken env io st staged expected = false ∧
        ∃ e, place env io st staged hex bytes = .error e) ∨
      brought env io st staged expected = some hex ∧
        place env io st staged hex bytes = .ok (placed env io st staged expected hex bytes) := by
  rw [brought, hgenuine, Option.filter_some, place, placed, handled, taken, hgenuine]
  by_cases hmem : hex ∈ st.blobs
  · rw [if_pos hmem, if_pos hmem]
    refine .inr ⟨by simp [hmem], ?_⟩
    simp only [if_pos hmem]
    rfl
  · simp only [if_neg hmem]
    cases hrename : io.rename with
    | error e => exact .inl ⟨by simp [hmem], rfl, _, rfl⟩
    | ok => exact .inr ⟨by simp, rfl⟩

theorem placed_manifests {hex : Text} (bytes : List UInt8)
    (hside : taken env io st staged expected → env.placeOf staged = .elsewhere) :
    (placed env io st staged expected hex bytes).manifests = st.manifests := by
  rw [placed]
  split
  · exact (handled_apart hside).1
  · exact (handled_apart hside).1

theorem placed_digests {hex : Text} (bytes : List UInt8)
    (hside : taken env io st staged expected → env.placeOf staged = .elsewhere) :
    (placed env io st staged expected hex bytes).digests = st.digests ∪ {sha256 ++ hex} := by
  have hapart := handled_apart hside
  rw [placed]
  split
  · next hmem => rw [hapart.digests, digests_union_self hmem]
  · rw [← hapart.digests]
    exact digests_insert hex bytes

/-! ### Tidy calls -/

/-- Some manifest beside a file's names the weights. -/
def Store.Shared (st : Store) (stem digest : Text) : Prop :=
  ∃ m ∈ st.beside stem, m.weights = some digest

/-- Writing a manifest to a place leaves nothing behind: what the file there named
    before, and the weights that were brought for it, it names itself or another does.
    If it is not written among the manifests, no weights were brought for it. -/
def Recorded (st : Store) (weights : Option Text) (hexes : List Text) :
    Except Text Unit → Place → Prop
  | .ok (), .manifest stem =>
    ∀ d ∈ (st.refs stem).toList ++ hexes.map (sha256 ++ ·), weights = some d ∨ st.Shared stem d
  | .ok (), .weights _ => False
  | .ok (), .elsewhere => ∀ hex ∈ hexes, hex ∈ st.blobs
  | .error _, _ => ∀ hex ∈ hexes, hex ∈ st.blobs

/-- Removing a manifest leaves nothing behind: what it names another names as well, or
    nothing else has its digest and the weights go with it. -/
def Released (st : Store) (unlinkBlob : Except Text Unit) (manifest : Manifest) : Place → Prop
  | .manifest stem => ∀ d ∈ manifest.weights,
      st.Shared stem d ∨ works unlinkBlob ∧ ∀ m ∈ st.beside stem, m.digest ≠ d
  | .weights _ => False
  | .elsewhere => True

/-- A call leaves no weights without a manifest, and no manifest without weights. -/
def Tidy (env : Env) (st : Store) : Call → Prop
  | .accept io staged manifest expected =>
    (taken env io st staged expected → env.placeOf staged = .elsewhere) ∧
      ∀ hex ∈ brought env io st staged expected,
        Recorded st (if manifest.isRemote then none else some (sha256 ++ hex)) [hex] io.write
          (env.placeOf (env.manifestPath manifest.name))
  | .register io manifest =>
    manifest.isRemote → Recorded st none [] io.write (env.placeOf (env.manifestPath manifest.name))
  | .remove io name =>
    ∀ manifest ∈ st.readManifest env (env.manifestPath name), works io.unlink →
      Released st io.unlinkBlob manifest (env.placeOf (env.manifestPath name))
  | .stage _ _ => True

instance (st : Store) (stem digest : Text) : Decidable (st.Shared stem digest) :=
  inferInstanceAs (Decidable (∃ m ∈ _, _))

instance (st : Store) (weights : Option Text) (hexes : List Text) :
    ∀ answer place, Decidable (Recorded st weights hexes answer place)
  | .ok (), .manifest _ => inferInstanceAs (Decidable (∀ d ∈ _, _))
  | .ok (), .weights _ => inferInstanceAs (Decidable False)
  | .ok (), .elsewhere => inferInstanceAs (Decidable (∀ hex ∈ _, _))
  | .error _, _ => inferInstanceAs (Decidable (∀ hex ∈ _, _))

instance (st : Store) (unlinkBlob : Except Text Unit) (manifest : Manifest) :
    ∀ place, Decidable (Released st unlinkBlob manifest place)
  | .manifest _ => inferInstanceAs (Decidable (∀ d ∈ manifest.weights, _))
  | .weights _ => inferInstanceAs (Decidable False)
  | .elsewhere => inferInstanceAs (Decidable True)

instance (env : Env) (st : Store) : ∀ call, Decidable (Tidy env st call)
  | .accept _ _ _ _ => inferInstanceAs (Decidable (_ ∧ _))
  | .register _ _ => inferInstanceAs (Decidable (_ → _))
  | .remove io name => inferInstanceAs
      (Decidable (∀ manifest ∈ st.readManifest env (env.manifestPath name), works io.unlink → _))
  | .stage _ _ => inferInstanceAs (Decidable True)

/-- Exactly the weights that are named are there, and each can be found by its digest. -/
structure Sound (env : Env) (st : Store) : Prop where
  tight : Exact st.refs st.digests
  found : ∀ d ∈ Named st.refs, ∃ hex, hexOf env.isEscaped d = .ok hex

theorem Sound.of_eq {st' : Store} (h : Sound env st) (hrefs : st'.refs = st.refs)
    (hdigests : st'.digests = st.digests) : Sound env st' := by
  constructor
  · rw [hrefs, hdigests]
    exact h.tight
  · rw [hrefs]
    exact h.found

theorem Sound.of_apart {st' : Store} (h : Sound env st) (hapart : Apart st st') : Sound env st' :=
  h.of_eq hapart.refs hapart.digests

/-- Weights that were brought in vain were there before. -/
theorem digests_union {st' : Store} {hexes : List Text}
    (hdigests : st'.digests = st.digests ∪ {d | ∃ hex ∈ hexes, d = sha256 ++ hex})
    (hthere : ∀ hex ∈ hexes, hex ∈ st.blobs) : st'.digests = st.digests := by
  rw [hdigests]
  apply Set.union_eq_left.mpr
  rintro _ ⟨hex, hmem, rfl⟩
  exact mem_digests.mpr (hthere hex hmem)

theorem mem_left {d stem : Text} {hexes : List Text} :
    d ∈ (st.refs stem).toList ++ hexes.map (sha256 ++ ·) ↔
      st.refs stem = some d ∨ ∃ hex ∈ hexes, d = sha256 ++ hex := by
  rw [List.mem_append, Option.mem_toList, List.mem_map]
  refine or_congr Iff.rfl (exists_congr fun hex => and_congr_right fun _ => eq_comm)

theorem record_sound (hexes : List Text) {m : Manifest} {st' : Store} (h : Sound env st)
    (hm : st'.manifests = st.manifests)
    (hdigests : st'.digests = st.digests ∪ {d | ∃ hex ∈ hexes, d = sha256 ++ hex})
    (hweights : ∀ d ∈ m.weights, (∃ hex ∈ hexes, d = sha256 ++ hex) ∧
      ∃ hex, hexOf env.isEscaped d = .ok hex)
    (hrecorded : Recorded st m.weights hexes io.write (env.placeOf (env.manifestPath m.name))) :
    Sound env (record env io st' m).1 := by
  have hsame : (∀ hex ∈ hexes, hex ∈ st.blobs) → ∀ st'' : Store, st''.refs = st'.refs →
      st''.digests = st'.digests → Sound env st'' := by
    intro hthere st'' hrefs hdigests'
    apply h.of_eq
    · rw [hrefs, refs_congr hm]
    · rw [hdigests', digests_union hdigests hthere]
  rw [record]
  cases hwrite : io.write with
  | error e =>
    rw [hwrite] at hrecorded
    exact hsame hrecorded st' rfl rfl
  | ok =>
    rw [hwrite] at hrecorded
    cases hplace : env.placeOf (env.manifestPath m.name) with
    | weights file =>
      rw [hplace] at hrecorded
      cases hrecorded
    | elsewhere =>
      rw [hplace] at hrecorded
      dsimp only
      rw [Store.written, hplace]
      exact hsame hrecorded _ rfl rfl
    | manifest stem =>
      rw [hplace] at hrecorded
      dsimp only at hrecorded ⊢
      rw [Store.written, hplace]
      have hrefs : Store.refs
          (Store.invalidate { st' with manifests := st'.manifests.insert stem m }) =
            Function.update st.refs stem m.weights := by
        rw [← refs_congr hm]
        exact refs_insert stem m
      have hnamed : ∀ d, m.weights = some d ∨ st.Shared stem d →
          d ∈ Named (Function.update st.refs stem m.weights) := by
        intro d hd
        rw [named_update, elsewhere_iff_beside]
        exact hd
      constructor
      · rw [hrefs]
        refine Eq.trans (show _ = st'.digests from rfl) ?_
        rw [hdigests]
        apply (exact_update_iff h.tight stem m.weights _).mpr
        refine ⟨fun d hd => ?_, fun d hd => ?_, fun d hd => ?_⟩
        · exact hnamed d (hrecorded d (mem_left.mpr (.inr hd)))
        · exact .inr (hweights d hd).1
        · exact hnamed d (hrecorded d (mem_left.mpr (.inl hd)))
      · rw [hrefs]
        intro d hd
        rcases (named_update _ _ _ _).mp hd with hd | ⟨other, -, hother⟩
        · exact (hweights d hd).2
        · exact h.found d ⟨other, hother⟩

theorem measured_weights (m : Manifest) (d : Text) (size : Nat) :
    (m.measured d size).weights = if m.isRemote then none else some d := rfl

theorem accept_sound {manifest : Manifest} (h : Sound env st)
    (htidy : Tidy env st (.accept io staged manifest expected)) :
    Sound env (acceptStaged env io st staged manifest expected).1 := by
  obtain ⟨hside, hrecorded⟩ := htidy
  rw [acceptStaged]
  rcases verify_cases with ⟨-, e, hverify⟩ | ⟨hex, bytes, hgenuine, hd, hhex, hverify⟩
  · rw [hverify]
    exact h.of_apart (handled_apart hside)
  rw [hverify]
  have hweights : ∀ d ∈ (manifest.measured (sha256 ++ hex) bytes.length).weights,
      (∃ hex' ∈ [hex], d = sha256 ++ hex') ∧ ∃ hex', hexOf env.isEscaped d = .ok hex' := by
    intro d hd
    rw [measured_weights] at hd
    split at hd
    · cases hd
    · cases hd
      exact ⟨⟨hex, List.mem_singleton_self hex, rfl⟩, hex, hhex⟩
  rcases place_cases bytes hgenuine with ⟨-, -, e, hplace⟩ | ⟨hbrought, hplace⟩
  · dsimp only
    rw [hplace]
    exact h
  · dsimp only
    rw [hplace, hd]
    apply record_sound [hex] h (placed_manifests bytes hside) ?_ hweights (hrecorded hex hbrought)
    rw [placed_digests bytes hside]
    simp only [List.mem_singleton, exists_eq_left]
    rfl

theorem register_sound {manifest : Manifest} (h : Sound env st)
    (htidy : Tidy env st (.register io manifest)) :
    Sound env (registerRemote env io st manifest).1 := by
  rw [registerRemote]
  split
  · exact h
  · next hremote =>
    have hnone : manifest.weights = none := if_pos (not_not.mp hremote)
    apply record_sound [] h rfl
    · simp
    · rw [hnone]
      intro d hd
      cases hd
    · rw [hnone]
      exact htidy (not_not.mp hremote)

/-- What removing one file leaves is listed from the directory. -/
theorem remove_eq {name : Text} {manifest : Manifest}
    (hread : st.readManifest env (env.manifestPath name) = some manifest)
    (hunlink : io.unlink = .ok ()) :
    (remove env io st name).1 = release env io.unlinkBlob
      { st.without env (env.manifestPath name) with
        cache := some (st.without env (env.manifestPath name)).readManifests }
      manifest (st.without env (env.manifestPath name)).readManifests := by
  rw [remove, hread, hunlink]
  rfl

theorem mem_readManifests {m : Manifest} : m ∈ st.readManifests ↔ m ∈ values st.manifests :=
  (List.mergeSort_perm _ _).mem_iff

/-- Weights go when a local manifest was the last to have their digest. -/
theorem release_cases (env : Env) (unlinkBlob : Except Text Unit) {manifest : Manifest}
    {listed : List Manifest} :
    (release env unlinkBlob st manifest listed = st ∧
      ((∃ m ∈ listed, m.digest = manifest.digest) ∨ manifest.weights = none ∨
        (∀ hex, hexOf env.isEscaped manifest.digest ≠ .ok hex) ∨ ¬ works unlinkBlob)) ∨
    ∃ hex, (∀ m ∈ listed, m.digest ≠ manifest.digest) ∧ manifest.digest = sha256 ++ hex ∧
      release env unlinkBlob st manifest listed = { st with blobs := st.blobs.erase hex } := by
  rw [release]
  split
  · next hkept =>
    refine .inl ⟨rfl, ?_⟩
    rcases hkept with hlisted | hremote
    · obtain ⟨m, hm, heq⟩ := List.any_eq_true.mp hlisted
      exact .inl ⟨m, hm, of_decide_eq_true heq⟩
    · exact .inr (.inl (if_pos hremote))
  · next hgone =>
    obtain ⟨hlisted, -⟩ := not_or.mp hgone
    cases hhex : hexOf env.isEscaped manifest.digest with
    | error e => exact .inl ⟨rfl, .inr (.inr (.inl fun hex heq => nomatch heq))⟩
    | ok hex =>
      dsimp only
      rw [Store.removeBlob]
      split
      · refine .inr ⟨hex, fun m hm heq => hlisted ?_, eq_of_hexOf hhex, rfl⟩
        exact List.any_eq_true.mpr ⟨m, hm, decide_eq_true heq⟩
      · next hunlink => exact .inl ⟨rfl, .inr (.inr (.inr hunlink))⟩

/-- The manifest of a file is gone, and with it the weights in `old`. -/
theorem erased_sound {stem : Text} (old : Set Text) {st' : Store} (h : Sound env st)
    (hrefs : st'.refs = Function.update st.refs stem none)
    (hdigests : st'.digests = st.digests \ old)
    (hold : ∀ d ∈ old, ¬ st.Shared stem d) (hkept : ∀ d ∈ st.refs stem,
    st.Shared stem d ∨ d ∈ old) :
    Sound env st' := by
  constructor
  · rw [hrefs, hdigests]
    apply (exact_remove_iff h.tight stem old).mpr
    constructor
    · intro d hd _ helse
      exact hold d hd (elsewhere_iff_beside.mp helse)
    · intro d hd
      rcases hkept d hd with hshared | hd
      · exact .inl (elsewhere_iff_beside.mpr hshared)
      · exact .inr hd
  · rw [hrefs]
    intro d hd
    rcases (named_update _ _ _ _).mp hd with hd | ⟨other, -, hother⟩
    · cases hd
    · exact h.found d ⟨other, hother⟩

theorem remove_sound {name : Text} (h : Sound env st) (htidy : Tidy env st (.remove io name)) :
    Sound env (remove env io st name).1 := by
  cases hread : st.readManifest env (env.manifestPath name) with
  | none =>
    rw [remove, hread]
    exact h
  | some manifest =>
    cases hunlink : io.unlink with
    | error e =>
      rw [remove, hread, hunlink]
      exact h
    | ok =>
      have htidy := htidy manifest hread (by rw [hunlink, works_ok])
      rw [remove_eq hread hunlink]
      cases hplace : env.placeOf (env.manifestPath name) with
      | weights file =>
        rw [hplace] at htidy
        cases htidy
      | elsewhere =>
        -- A file that is no manifest of the store; its weights are looked for all the same.
        have hapart := without_apart st hplace
        rcases release_cases env io.unlinkBlob with ⟨hsame, -⟩ | ⟨hex, hlisted, hd, hgone⟩
        · rw [hsame]
          exact h.of_apart hapart
        · rw [hgone]
          have hout : sha256 ++ hex ∉ st.digests := by
            rw [h.tight, named_iff_values]
            rintro ⟨m, hm, hweights⟩
            refine hlisted m (mem_readManifests.mpr ?_) ?_
            · rwa [hapart.1]
            · rw [hd, Manifest.digest_of_weights hweights]
          refine h.of_eq (refs_congr hapart.1) ?_
          rw [digests_erase]
          refine (Set.sdiff_singleton_eq_self ?_).trans hapart.digests
          rwa [← hapart.digests] at hout
      | manifest stem =>
        rw [hplace] at htidy
        have hlookup : st.manifests.lookup stem = some manifest := by
          rw [Store.readManifest, hplace] at hread
          exact hread
        have hrefs : st.refs stem = manifest.weights := by
          rw [Store.refs, hlookup, Option.bind_some]
        have hwithout : st.without env (env.manifestPath name) =
            { st with manifests := st.manifests.erase stem } := by
          rw [Store.without, hplace]
        rw [hwithout]
        have hlisted : ∀ m,
            m ∈ Store.readManifests { st with manifests := st.manifests.erase stem } ↔
              m ∈ st.beside stem := fun m => mem_readManifests
        rcases release_cases env io.unlinkBlob with ⟨hsame, hwhy⟩ | ⟨hex, hnone, hd, hgone⟩
        · rw [hsame]
          refine erased_sound ∅ h (refs_erase stem) Set.sdiff_empty.symm
            (fun d hd => hd.elim) fun d hd => ?_
          rw [hrefs] at hd
          rcases htidy d hd with hshared | ⟨hunlink, hlast⟩
          · exact .inl hshared
          · have hd' := Manifest.digest_of_weights hd
            rcases hwhy with ⟨m, hm, heq⟩ | hlocal | hhex | hblob
            · exact absurd (heq.trans hd') (hlast m ((hlisted m).mp hm))
            · rw [hlocal] at hd
              cases hd
            · obtain ⟨hex, hfound⟩ := h.found d ⟨stem, hrefs.trans hd⟩
              exact absurd (hd' ▸ hfound) (hhex hex)
            · exact absurd hunlink hblob
        · rw [hgone]
          refine erased_sound {sha256 ++ hex} h (refs_erase stem) (digests_erase hex) ?_ ?_
          · rintro d hmem ⟨m, hm, hweights⟩
            refine hnone m ((hlisted m).mpr hm) ?_
            rw [Manifest.digest_of_weights hweights, hd]
            exact hmem
          · intro d hmem
            rw [hrefs] at hmem
            refine .inr ?_
            rw [← Manifest.digest_of_weights hmem, hd]
            exact rfl

theorem new_sound (files : Table (List Text) (List UInt8)) : Sound env (Store.new files) := by
  have hnamed : Named (Store.new files).refs = ∅ := by
    ext d
    rw [named_iff_values]
    constructor
    · rintro ⟨m, hm, -⟩
      cases hm
    · intro hd
      exact hd.elim
  constructor
  · rw [Exact, hnamed]
    ext d
    constructor
    · rintro ⟨hex, hmem, -⟩
      exact absurd hmem (AList.notMem_empty hex)
    · intro hd
      exact hd.elim
  · rw [hnamed]
    intro d hd
    exact hd.elim

theorem callStep_sound (call : Call) (st' : Store) (h : Sound env st) (htidy : Tidy env st call)
    (hstep : callStep env st call = some st') : Sound env st' := by
  cases hstep
  cases call with
  | accept io staged manifest expected => exact accept_sound h htidy
  | register io manifest => exact register_sound h htidy
  | remove io name => exact remove_sound h htidy
  | stage place bytes => exact h.of_eq rfl rfl

/-- **From an empty store on, the weights in it are exactly those that local manifests
    name**, as long as the calls are tidy. -/
theorem blobs_exact (files : Table (List Text) (List UInt8)) (calls : List Call)
    (htidy : along (callStep env) (Tidy env) (Store.new files) calls)
    (hrun : runs (callStep env) (Store.new files) calls = some st) : Exact st.refs st.digests := by
  refine (show Sound env st from ?_).tight
  apply runs_invariant_along (callStep env) (P := Sound env) (C := Tidy env) ?_ (new_sound files)
    htidy hrun
  intro st call st' h hC hstep
  exact callStep_sound call st' h hC hstep

/-! ### Two files of one byte -/

def oneHex : Text := "4bf5122f344554c53bde2ebb8cd2b7e3d1600ad631c385a5d7cce23c7785459a".toList

def twoHex : Text := "dbc1b4c900ffe48d575b5da5c638040125f65db0fe3e24494b76ea986457d986".toList

/-- A store of its own, and what `sha256sum` says of a one and of a two. -/
def oneAndTwo : Env where
  cwd := []
  root := "/models".toList
  digestOf bytes := sha256 ++ if bytes = [1] then oneHex else twoHex
  textOf _ := []
  manifestOf _ := none
  isEscaped _ := false

/-- The byte is staged and accepted under a name. -/
def installed (name : Text) (byte : UInt8) (hex : Text) : List Call :=
  let staged := join oneAndTwo.stagingDir "weights".toList
  let manifest := ⟨name, sha256 ++ hex, "gguf".toList, [], [], .none, [], [], []⟩
  [.stage (resolve oneAndTwo.cwd staged) [byte], .accept .none staged manifest (sha256 ++ hex)]

/-- Two names share the weights until the second is removed. -/
theorem blobs_exact_shared : ∃ st, runs (callStep oneAndTwo) (Store.new ∅)
      (installed "a".toList 1 oneHex ++ installed "b".toList 1 oneHex ++
        [.remove .none "a".toList, .remove .none "b".toList]) = some st ∧
    Exact st.refs st.digests := by
  obtain ⟨st, hst⟩ := Option.isSome_iff_exists.mp
    (show (runs (callStep oneAndTwo) (Store.new ∅)
      (installed "a".toList 1 oneHex ++ installed "b".toList 1 oneHex ++
        [.remove .none "a".toList, .remove .none "b".toList])).isSome by decide +kernel)
  exact ⟨st, hst, blobs_exact ∅ _ (by decide +kernel) hst⟩

/-- Another file under the same name leaves the first one in the store. -/
theorem reinstalling_leaves_weights : ∃ st, runs (callStep oneAndTwo) (Store.new ∅)
      (installed "a".toList 1 oneHex ++ installed "a".toList 2 twoHex) = some st ∧
    ¬ Exact st.refs st.digests := by
  have hrun : (runs (callStep oneAndTwo) (Store.new ∅)
      (installed "a".toList 1 oneHex ++ installed "a".toList 2 twoHex)).map
        (fun st => (st.blobs.keys, (values st.manifests).map Manifest.weights)) =
      some ([twoHex, oneHex], [some (sha256 ++ twoHex)]) := by decide +kernel
  obtain ⟨st, hst, heq⟩ := Option.map_eq_some_iff.mp hrun
  obtain ⟨hkeys, hvalues⟩ := Prod.mk.inj heq
  refine ⟨st, hst, fun hexact => ?_⟩
  have hthere : sha256 ++ oneHex ∈ st.digests := by
    refine mem_digests.mpr ?_
    rw [AList.mem_keys, hkeys]
    exact List.mem_cons_of_mem _ (List.mem_singleton_self _)
  rw [hexact, named_iff_values] at hthere
  obtain ⟨m, hm, hweights⟩ := hthere
  have hnamed := List.mem_map_of_mem (f := Manifest.weights) hm
  rw [hvalues, hweights, List.mem_singleton] at hnamed
  exact absurd hnamed (by decide +kernel)

end AiDaemon.Registry
