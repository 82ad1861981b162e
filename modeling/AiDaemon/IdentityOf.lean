import AiDaemon.Options
import AiDaemon.Policy
import AiDaemon.UnitNames

/-!
# Introducers (`dbusapi.rs`: `is_trusted_introducer`, `identity_of`)

The bus names the caller's uid and pid.  Two kinds of caller may speak for
somebody else: a portal, which names an application, and the HTTP shim, which
names the process or the client behind it.  Who is one is decided on the unit
the caller's cgroup yields, so on a string the caller had a hand in.

The claims are about that seam.  `UnitNames` says which components yield which
unit; the theorems below say for which of them the daemon takes a transient
scope for a configured service (`trusted_scope_iff`) and a user's process for
the shim (`identity_stays_own_iff`).
-/

namespace AiDaemon

open Ledger

namespace Manager

open Identity

/-! ### The source -/

/-- A configured name, with the optional suffix off. -/
def introducerName (configured : Text) : Text :=
    Text.trimEndMatches ".service".toList configured.trim

def introducerMatches (candidate name : Text) : Bool :=
  candidate = name || ".service".toList.isSuffixOf? candidate = some name

def isTrustedIntroducer (allowed : List Text) (unit exe : Option Text) : Bool :=
  allowed.any fun configured =>
    let name := introducerName configured
    name ≠ [] && (unit.any (introducerMatches · name) || exe.any (introducerMatches · name))

/-- The uid the shim runs as, when one is configured and exists. -/
def shimUid (host : Host) (policy : PolicyConfig) : Option UInt32 :=
  let shimUser := policy.shimUser.trim
  if shimUser = [] then none else uidOfUser host shimUser

def isShim (host : Host) (policy : PolicyConfig) (identity : Identity) : Bool :=
  shimUid host policy = some identity.uid || identity.unit = some "ai-daemon-shim.service".toList

/-- A client name the shim vouched for: short, and of characters that cannot
    forge another key. -/
def clientName (options : Options) : Option Text :=
  ((options.string "shim_client").map Text.trim).filter fun name =>
    name ≠ [] && name.byteLen ≤ 64 &&
      name.all fun c => c.isAlphanum || "-_.".toList.contains c

/-- What the bus says about the sender of a message. -/
structure BusCredentials where
  unixUserId : Option UInt32
  processId : Option UInt32

def credentials (answer : Except BusError BusCredentials) : Except BusError (UInt32 × Int32) := do
  let creds ← answer
  match creds.unixUserId with
  | none => .error (.failed "the bus would not name the caller's uid".toList)
  | some uid => .ok (uid, (creds.processId.getD 0).toInt32)

/-- `identity_of`, for a caller whose credentials the bus gave. -/
def identityOf (host : Host) (policy : PolicyConfig) (uid : UInt32) (pid : Int32)
    (options : Options) : Except BusError Identity :=
  let identity := fromPidUid host pid uid uid .native
  match options.string "portal_app_id" with
  | some appId =>
    if isTrustedIntroducer policy.portalUnits identity.unit identity.exe then
      .ok { identity with cls := .portal, appId := some appId }
    else
      .error (.accessDenied
        "only xdg-desktop-portal may assert an application identity".toList)
  | none =>
    if (options.lookup "shim_client".toList).isSome ∧ isShim host policy identity = false then
      .error (.accessDenied "only ai-daemon-shim may name an HTTP caller".toList)
    else
      match options.u32 "shim_peer_pid" with
      | none => .ok identity
      | some peerPid =>
        if isShim host policy identity = false then
          .error (.accessDenied "only ai-daemon-shim may introduce an HTTP caller".toList)
        else
          let peerUid := (options.u32 "shim_peer_uid").getD identity.uid
          .ok { fromPidUid host peerPid.toInt32 peerUid peerUid .shim with
            attested := (options.bool "shim_peer_attested").getD false
            client := clientName options }

/-! ### Scopes taken for portals -/

theorem introducerMatches_iff {candidate name : Text} :
    introducerMatches candidate name = true ↔
      candidate = name ∨ candidate = name ++ ".service".toList := by
  simp only [introducerMatches, Bool.or_eq_true, decide_eq_true_eq,
    List.isSuffixOf?_eq_some_iff_append_eq]
  constructor
  · rintro (h | h)
    · exact Or.inl h
    · exact Or.inr h.symm
  · rintro (h | h)
    · exact Or.inl h
    · exact Or.inr h.symm

/-- **Trusted scopes.** A transient scope is no trusted introducer exactly when
    no configured name, bare or with its suffix, is a unit its shape stands
    for. -/
theorem trusted_scope_iff (portalUnits : List Text) (name : Text) :
    isTrustedIntroducer portalUnits (normaliseUnit (name ++ ".scope".toList)) none = false ↔
      ∀ configured ∈ portalUnits, introducerName configured ≠ [] →
        ¬ ScopeNames name (introducerName configured) ∧
          ¬ ScopeNames name (introducerName configured ++ ".service".toList) := by
  rw [isTrustedIntroducer, List.any_eq_false]
  refine forall₂_congr fun configured _ => ?_
  simp only [Bool.and_eq_true, Bool.or_eq_true, decide_eq_true_eq, Option.any_none,
    Bool.false_eq_true, or_false, not_and, Option.any_eq_true, introducerMatches_iff]
  refine imp_congr_right fun _ => ?_
  simp only [normaliseUnit_scope]
  constructor
  · intro h
    exact ⟨fun hbare => h ⟨_, hbare, Or.inl rfl⟩, fun hfull => h ⟨_, hfull, Or.inr rfl⟩⟩
  · rintro ⟨hbare, hfull⟩ ⟨unit, hunit, rfl | rfl⟩
    · exact hbare hunit
    · exact hfull hunit

/-- `ai-run --as xdg-desktop-portal` under the shipped list. -/
theorem airun_scope_trusted :
    ¬ ∀ (portalUnits : List Text) (component : Text), ".scope".toList <:+ component →
      isTrustedIntroducer portalUnits (normaliseUnit component) none = false := by
  intro hall
  have htrusted := hall defaultPortalUnits "app-airun-xdg-desktop-portal-4242.scope".toList
    (by decide)
  revert htrusted
  decide

/-! ### Users taken for the shim -/

/-- The daemon refused, or it believed nothing but the bus about the caller. -/
def OwnOrRefused (uid : UInt32) : Except BusError Identity → Prop
  | .error _ => True
  | .ok identity => identity.uid = uid ∧ identity.cls ≠ .shim ∧ identity.client = none

theorem isShim_iff {host : Host} {policy : PolicyConfig} {uid : UInt32} {pid : Int32}
    (hshim : shimUid host policy ≠ some uid) :
    isShim host policy (fromPidUid host pid uid uid .native) = true ↔
      ∃ text, host.cgroup pid = some text ∧ CgroupNames text "ai-daemon-shim.service".toList := by
  have huid : shimUid host policy ≠ some (fromPidUid host pid uid uid .native).uid := hshim
  simp only [isShim, huid, decide_false, Bool.false_or, decide_eq_true_eq]
  simp only [fromPidUid, unitOfPid, Option.bind_eq_some_iff, unitFromCgroup_eq_some]

/-- **A user is nobody else** exactly when its cgroup does not stand for the
    shim's unit in a call that names a peer pid and no application. -/
theorem identity_stays_own_iff (host : Host) (policy : PolicyConfig) (uid : UInt32) (pid : Int32)
    (options : Options) (hshim : shimUid host policy ≠ some uid) :
    OwnOrRefused uid (identityOf host policy uid pid options) ↔
      ¬ ((∃ text, host.cgroup pid = some text ∧
            CgroupNames text "ai-daemon-shim.service".toList) ∧
          options.string "portal_app_id" = none ∧ options.u32 "shim_peer_pid" ≠ none) := by
  rw [← isShim_iff hshim]
  unfold identityOf
  cases hportal : options.string "portal_app_id" with
  | some appId =>
    -- a portal names an application of the same user
    simp only [reduceCtorEq, false_and, and_false, not_false_eq_true, iff_true]
    split
    · exact ⟨rfl, by simp, rfl⟩
    · trivial
  | none =>
    simp only [true_and]
    cases his : isShim host policy (fromPidUid host pid uid uid .native) with
    | false =>
      simp only [Bool.false_eq_true, false_and, not_false_eq_true, iff_true]
      split
      · trivial
      · cases options.u32 "shim_peer_pid" with
        | none => exact ⟨rfl, by simp [fromPidUid], rfl⟩
        | some peerPid => trivial
    | true =>
      simp only [Bool.true_eq_false, and_false, if_false, true_and, not_not]
      cases options.u32 "shim_peer_pid" with
      | none => simp [OwnOrRefused, fromPidUid]
      | some peerPid => simp [OwnOrRefused, fromPidUid]

/-- A cgroup file for a process under `uid`'s own service manager. -/
def userCgroup (uid : UInt32) (inner : Text) : Text :=
  "0::/user.slice/user-".toList ++ Text.ofNat uid.toNat ++ ".slice/user@".toList ++
    Text.ofNat uid.toNat ++ ".service/".toList ++ inner ++ ['\n']

/-- A desktop where every process sits at `inner` under user 1000's manager. -/
def desktop (inner : String) : Host where
  cgroup _ := some (userCgroup 1000 inner.toList)
  exe _ := none
  status _ := none
  passwd := some "ai-daemon-shim:x:970:970::/:/usr/bin/nologin\n".toList
  group := none

/-- A caller that says it speaks for root's process 1. -/
def asRoot : Options :=
  ((∅ : Options).insert "shim_peer_pid".toList (.ofU32 1)).insert "shim_peer_uid".toList (.ofU32 0)

theorem editor_stays_own :
    OwnOrRefused 1000 (identityOf (desktop "app.slice/app-gnome-org.gnome.TextEditor-4242.scope")
      defaultPolicy 1000 77 asRoot) := by
  rw [identity_stays_own_iff _ _ _ _ _ (by decide)]
  rintro ⟨⟨text, htext, hnames⟩, -⟩
  cases htext
  rw [← unitFromCgroup_eq_some] at hnames
  revert hnames
  decide

/-- A user's own `~/.config/systemd/user/ai-daemon-shim.service`. -/
theorem user_unit_taken_for_shim :
    ¬ ∀ (host : Host) (policy : PolicyConfig) (uid : UInt32) (pid : Int32) (inner : Text)
        (options : Options), shimUid host policy ≠ some uid →
      host.cgroup pid = some (userCgroup uid inner) →
      OwnOrRefused uid (identityOf host policy uid pid options) := by
  intro hall
  have hown := hall (desktop "app.slice/ai-daemon-shim.service") defaultPolicy 1000 77
    "app.slice/ai-daemon-shim.service".toList asRoot (by decide) rfl
  have huid : (0 : UInt32) = 1000 := hown.1
  revert huid
  decide

end Manager

end AiDaemon
