import AiDaemon.IdentityOf

/-!
# Whose key it is

Grants, rates and spend are filed under `key`, a text put together from parts
the caller had a hand in: an executable, a unit, an application id, a client
name.  Two callers share a ledger when their keys are equal texts, so what
matters is what can be read back out of one.

`keyPrincipal` is that reader.  The class stands before the first colon, and the
uid behind the last at sign, where no part of the caller's can reach past it; a
client name is what is left, and it holds neither mark because `clientName` lets
none through.
-/

namespace AiDaemon

namespace Identity

/-! ### What a key names -/

/-- Whom a key stands for.  A uid is kept in decimal, as the key has it. -/
inductive Principal where
  | application (appId : Text)
  | user (uid : Text)
  | client (name : Text)
  | anonymous (uid : Text)
deriving DecidableEq, Repr

/-- The characters a client name is made of. -/
def isClientChar (c : Char) : Bool := c.isAlphanum || "-_.".toList.contains c

/-- A client name, where there is one, is of the form the shim may vouch for. -/
def Sanitised (identity : Identity) : Prop :=
  ∀ name, identity.client = some name → name ≠ [] ∧ name.byteLen ≤ 64 ∧ name.all isClientChar = true

def principal (identity : Identity) : Principal :=
  match identity.cls with
  | .portal => .application (identity.appId.getD "unknown".toList)
  | .native => .user (Text.ofNat identity.uid.toNat)
  | .shim =>
    match identity.client with
    | some name => .client name
    | none => .anonymous (Text.ofNat identity.uid.toNat)

/-- The uid behind the last at sign, or behind the word `uid:`. -/
def uidOfKey (rest : Text) : Option Text :=
  match Text.rsplitOnce ['@'] rest with
  | some (_, uid) => some uid
  | none => "uid:".toList.isPrefixOf? rest

/-- Whom a text names when it is read as a key. -/
def keyPrincipal (key : Text) : Option Principal :=
  match "portal:".toList.isPrefixOf? key, "shim:".toList.isPrefixOf? key with
  | some appId, _ => some (.application appId)
  | none, some rest =>
    match uidOfKey rest with
    | some uid => some (.anonymous uid)
    | none => some (.client rest)
  | none, none => (uidOfKey key).map .user

/-! ### Reading a key back -/

theorem not_mem_ofNat {c : Char} (hc : c.isDigit = false) (n : Nat) : c ∉ Text.ofNat n := by
  intro hmem
  have hdigit := Nat.isDigit_of_mem_toDigits (by decide) (by decide) hmem
  rw [hc] at hdigit
  cases hdigit

/-- Whatever stands before it, the last at sign is the one the uid follows. -/
theorem uidOfKey_atUid (before : Text) (uid : UInt32) :
    uidOfKey (before ++ atUid uid) = some (Text.ofNat uid.toNat) := by
  rw [uidOfKey, atUid, Text.rsplitOnce_char_append before (not_mem_ofNat (by decide) _)]

theorem uidOfKey_uid (uid : UInt32) :
    uidOfKey ("uid:".toList ++ Text.ofNat uid.toNat) = some (Text.ofNat uid.toNat) := by
  have hnone : Text.rsplitOnce ['@'] ("uid:".toList ++ Text.ofNat uid.toNat) = none := by
    rw [Text.rsplitOnce_char_eq_none, List.mem_append, not_or]
    exact ⟨by decide, not_mem_ofNat (by decide) _⟩
  rw [uidOfKey, hnone]
  exact Text.isPrefixOf?_append _ _

theorem isClientChar_mark {name : Text} (h : name.all isClientChar = true) :
    '@' ∉ name ∧ ':' ∉ name := by
  rw [List.all_eq_true] at h
  constructor
  · intro hmem
    exact absurd (h _ hmem) (by decide)
  · intro hmem
    exact absurd (h _ hmem) (by decide)

/-- A client name reads as no uid: it has no at sign, and no colon for `uid:`. -/
theorem uidOfKey_client {name : Text} (h : name.all isClientChar = true) :
    uidOfKey name = none := by
  obtain ⟨hat, hcolon⟩ := isClientChar_mark h
  rw [uidOfKey, Text.rsplitOnce_char_eq_none.mpr hat]
  show "uid:".toList.isPrefixOf? name = none
  rw [Text.isPrefixOf?_eq_none]
  intro hpre
  exact hcolon (hpre.subset (by decide))

theorem keyPrincipal_shim (rest : Text) :
    keyPrincipal ("shim:".toList ++ rest) =
      match uidOfKey rest with
      | some uid => some (.anonymous uid)
      | none => some (.client rest) := by
  rfl

/-- A key that starts with neither `portal:` nor `shim:` is a user's. -/
theorem keyPrincipal_native {key : Text} {uid : Text} (hportal : ¬ "portal:".toList <+: key)
    (hshim : ¬ "shim:".toList <+: key) (huid : uidOfKey key = some uid) :
    keyPrincipal key = some (.user uid) := by
  rw [keyPrincipal, Text.isPrefixOf?_eq_none.mpr hportal, Text.isPrefixOf?_eq_none.mpr hshim]
  simp [huid]

/-- **Reading back.** A key names the principal it was built for. -/
theorem keyPrincipal_key {identity : Identity} (h : Sanitised identity) :
    keyPrincipal identity.key = some identity.principal := by
  obtain ⟨cls, uid, gid, pid, unit, appId, exe, client, attested⟩ := identity
  cases cls with
  | portal => rfl
  | native =>
    cases unit with
    | some unit =>
      refine keyPrincipal_native ?_ ?_ (uidOfKey_atUid _ uid)
      · simp [key]
      · simp [key]
    | none =>
      cases exe with
      | some exe =>
        refine keyPrincipal_native ?_ ?_ (uidOfKey_atUid _ uid)
        · simp [key]
        · simp [key]
      | none =>
        refine keyPrincipal_native ?_ ?_ (uidOfKey_uid uid)
        · simp [key]
        · simp [key]
  | shim =>
    cases client with
    | some name =>
      obtain ⟨-, -, hchars⟩ := h name rfl
      simp only [key, keyPrincipal_shim, uidOfKey_client hchars, principal]
    | none =>
      have hother : keyPrincipal ("shim:uid:".toList ++ Text.ofNat uid.toNat) =
          some (.anonymous (Text.ofNat uid.toNat)) := by
        have hread := keyPrincipal_shim ("uid:".toList ++ Text.ofNat uid.toNat)
        rw [uidOfKey_uid] at hread
        exact hread
      cases attested with
      | false => exact hother
      | true =>
        cases unit with
        | some unit =>
          have hread := keyPrincipal_shim ("unit:".toList ++ unit ++ atUid uid)
          rw [uidOfKey_atUid] at hread
          exact hread
        | none =>
          cases exe with
          | some exe =>
            have hread := keyPrincipal_shim (exe ++ atUid uid)
            rw [uidOfKey_atUid] at hread
            simpa [key, principal] using hread
          | none => exact hother

/-! ### Separation -/

/-- Two identities one ledger may be shared by. -/
def SamePrincipal (a b : Identity) : Prop :=
  a.cls = b.cls ∧
    match a.cls with
    | .native => a.uid = b.uid
    | .shim => (∃ name, a.client = some name ∧ b.client = some name) ∨
        (a.client = none ∧ b.client = none ∧ a.uid = b.uid)
    | .portal => a.appId.getD "unknown".toList = b.appId.getD "unknown".toList

theorem uid_ofNat_injective {a b : UInt32} (h : Text.ofNat a.toNat = Text.ofNat b.toNat) : a = b :=
  UInt32.toNat.inj (Text.ofNat_injective h)

theorem samePrincipal_of_principal_eq {a b : Identity} (h : a.principal = b.principal) :
    SamePrincipal a b := by
  obtain ⟨cls, uid, gid, pid, unit, appId, exe, client, attested⟩ := a
  obtain ⟨cls', uid', gid', pid', unit', appId', exe', client', attested'⟩ := b
  cases cls with
  | portal =>
    cases cls' with
    | portal => exact ⟨rfl, Principal.application.inj h⟩
    | native => cases h
    | shim => cases client' <;> cases h
  | native =>
    cases cls' with
    | portal => cases h
    | native => exact ⟨rfl, uid_ofNat_injective (Principal.user.inj h)⟩
    | shim => cases client' <;> cases h
  | shim =>
    cases client with
    | some name =>
      cases cls' with
      | portal => cases h
      | native => cases h
      | shim =>
        cases client' with
        | some name' => exact ⟨rfl, Or.inl ⟨name, rfl, by rw [Principal.client.inj h]⟩⟩
        | none => cases h
    | none =>
      cases cls' with
      | portal => cases h
      | native => cases h
      | shim =>
        cases client' with
        | some name' => cases h
        | none => exact ⟨rfl, Or.inr ⟨rfl, rfl, uid_ofNat_injective (Principal.anonymous.inj h)⟩⟩

end Identity

namespace Manager

open Identity

theorem clientName_eq_some {options : Options} {name : Text} (h : clientName options = some name) :
    name ≠ [] ∧ name.byteLen ≤ 64 ∧ name.all isClientChar = true := by
  rw [clientName, Option.filter_eq_some_iff] at h
  obtain ⟨-, hform⟩ := h
  simpa [isClientChar, and_assoc] using hform

/-- Every identity the daemon answers with has no client name, or one
    `clientName` let through. -/
theorem sanitised_of_identityOf {host : Host} {policy : PolicyConfig} {uid : UInt32} {pid : Int32}
    {options : Options} {identity : Identity}
    (h : identityOf host policy uid pid options = .ok identity) : Sanitised identity := by
  intro name hname
  unfold identityOf at h
  cases hportal : options.string "portal_app_id" with
  | some appId =>
    simp only [hportal] at h
    split at h
    · cases h
      cases hname
    · cases h
  | none =>
    simp only [hportal] at h
    split at h
    · cases h
    · cases hpeer : options.u32 "shim_peer_pid" with
      | none =>
        simp only [hpeer] at h
        cases h
        cases hname
      | some peerPid =>
        simp only [hpeer] at h
        split at h
        · cases h
        · cases h
          exact clientName_eq_some hname

/-- **Keys separate principals.** The daemon only builds identities whose client
    name is sanitised, and two such identities, with whatever uid, unit,
    executable and application id, share a key only when they are one class's
    and one principal's. -/
theorem keys_separate_principals :
    (∀ (host : Host) (policy : PolicyConfig) (uid : UInt32) (pid : Int32) (options : Options)
        (identity : Identity),
      identityOf host policy uid pid options = .ok identity → Sanitised identity) ∧
    ∀ a b : Identity, Sanitised a → Sanitised b → a.key = b.key → SamePrincipal a b := by
  constructor
  · intro host policy uid pid options identity h
    exact sanitised_of_identityOf h
  · intro a b ha hb hkey
    have hread := keyPrincipal_key ha
    rw [hkey, keyPrincipal_key hb] at hread
    exact samePrincipal_of_principal_eq (Option.some.inj hread).symm

/-- An HTTP caller behind the shim, on an attested socket of user 1000. -/
def attestedCaller (unit exe : Option Text) : Identity where
  cls := .shim
  uid := 1000
  gid := 1000
  pid := 77
  unit
  appId := none
  exe
  client := none
  attested := true

/-- An executable called `unit:app` shares the key of the unit `app`, and the
    user with it. -/
theorem lookalike_executable_same_user :
    (attestedCaller (some "app".toList) none).key =
        (attestedCaller none (some "unit:app".toList)).key ∧
      SamePrincipal (attestedCaller (some "app".toList) none)
        (attestedCaller none (some "unit:app".toList)) :=
  have hkey : (attestedCaller (some "app".toList) none).key =
      (attestedCaller none (some "unit:app".toList)).key := by decide
  ⟨hkey, keys_separate_principals.2 _ _ (by rintro name ⟨⟩) (by rintro name ⟨⟩) hkey⟩

end Manager

end AiDaemon
