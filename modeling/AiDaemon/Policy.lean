import AiDaemon.Identity
import AiDaemon.Ledger

/-!
# Limits, the gate and session counts (`policy.rs`, `config.rs`)

`Limits` is what one identity may do: the `[policy]` defaults with the
identity's own rule written over them (`limitsFor`).  The gate asks which humans
may use the daemon at all.  The engine counts the open sessions of each identity
by key; a count goes up when `openSession` accepts and comes back down through
`closeSession`, which stops at zero.
-/

namespace AiDaemon

open Ledger

/-! ### Configuration -/

/-- The part of `[policy]` that the limits, the gate and the introducers read. -/
structure PolicyConfig where
  gateGroup : Text
  shimUser : Text
  portalUnits : List Text
  maxContext : Nat
  maxSessions : Nat
  tokensPerMinute : Nat
  dailySpend : Float
  prelude : Text
  markProvenance : Bool
  allowedModels : List Text

/-- `config::IdentityRule`. -/
structure IdentityRule where
  identity : Text
  maxContext : Option Nat
  maxSessions : Option Nat
  tokensPerMinute : Option Nat
  dailySpend : Option Float
  prelude : Option Text
  markProvenance : Option Bool
  allowedModels : Option (List Text)

structure Config where
  policy : PolicyConfig
  identities : List IdentityRule

def Config.ruleFor (config : Config) (identity : Text) : Option IdentityRule :=
  config.identities.find? fun r => r.identity = identity

def defaultPortalUnits : List Text :=
  ["xdg-desktop-portal".toList, "xdg-desktop-portal-gtk".toList,
    "xdg-desktop-portal-gnome".toList, "xdg-desktop-portal-kde".toList,
    "xdg-desktop-portal-lxqt".toList, "xdg-desktop-portal-wlr".toList,
    "xdg-desktop-portal-hyprland".toList, "ai-daemon-portal".toList]

/-- `Policy::default`. -/
def defaultPolicy : PolicyConfig where
  gateGroup := "ai".toList
  shimUser := "ai-daemon-shim".toList
  portalUnits := defaultPortalUnits
  maxContext := 131072
  maxSessions := 8
  tokensPerMinute := 600000
  dailySpend := 0
  prelude := []
  markProvenance := false
  allowedModels := [['*']]

namespace Policy

/-! ### Limits -/

structure Limits where
  maxContext : Nat
  maxSessions : Nat
  tokensPerMinute : Nat
  /-- Micro-units a rolling day; zero is no ceiling. -/
  dailySpendMicros : Nat
  prelude : Text
  markProvenance : Bool
  sessionRate : Option Nat
  noTools : Bool
  allowedModels : List Text
deriving DecidableEq

def Limits.permitsModel (limits : Limits) (model : Text) : Bool :=
  limits.allowedModels.any fun m => m = ['*'] ∨ m = model

def toMicros (units : Float) : Nat :=
  if !units.isFinite || units ≤ 0 then 0 else (units * 1000000).round.toUInt64.toNat

def defaultLimits (policy : PolicyConfig) : Limits where
  maxContext := policy.maxContext
  maxSessions := policy.maxSessions
  tokensPerMinute := policy.tokensPerMinute
  dailySpendMicros := toMicros policy.dailySpend
  prelude := policy.prelude
  markProvenance := policy.markProvenance
  sessionRate := none
  noTools := false
  allowedModels := policy.allowedModels

/-- What a rule sets replaces the default, what it leaves out does not. -/
def IdentityRule.apply (rule : IdentityRule) (limits : Limits) : Limits :=
  { limits with
    maxContext := rule.maxContext.getD limits.maxContext
    maxSessions := rule.maxSessions.getD limits.maxSessions
    tokensPerMinute := rule.tokensPerMinute.getD limits.tokensPerMinute
    dailySpendMicros := (rule.dailySpend.map toMicros).getD limits.dailySpendMicros
    prelude := rule.prelude.getD limits.prelude
    markProvenance := rule.markProvenance.getD limits.markProvenance
    allowedModels := rule.allowedModels.getD limits.allowedModels }

def limitsFor (config : Config) (identity : Identity) : Limits :=
  match config.ruleFor identity.key with
  | some rule => IdentityRule.apply rule (defaultLimits config.policy)
  | none => defaultLimits config.policy

/-! ### The gate -/

def noGroupText (group : Text) : Text :=
  "the ".toList ++ group ++ (" group does not exist on this machine, so nobody is permitted to " ++
    "use the daemon; create it (sysusers.d does this on install) or clear " ++
    "policy.gate_group").toList

def notInGroupText (identity : Identity) (group : Text) : Text :=
  identity.key ++ " is not in the ".toList ++ group ++
    " group, which is the machine's gate on using local inference at all".toList

/-- `gate`: a caller other than a portal must be in the configured group. -/
def gate (host : Host) (policy : PolicyConfig) (identity : Identity) : Except Text Unit :=
  let group := policy.gateGroup.trim
  if group = [] ∨ identity.cls = .portal then .ok ()
  else
    match Identity.gidOfGroup host group with
    | none => .error (noGroupText group)
    | some gid =>
      if (Identity.groupsOfPid host identity.pid).contains gid then .ok ()
      else .error (notInGroupText identity group)

/-! ### Session counts -/

def countOf (sessions : Table Text Nat) (key : Text) : Nat := (sessions.lookup key).getD 0

def tooManyText (identity : Identity) (count limit : Nat) : Text :=
  identity.key ++ " already holds ".toList ++ Text.ofNat count ++ " of ".toList ++
    Text.ofNat limit ++ " permitted sessions".toList

/-- `open_session`. Asking leaves a zero behind where there was no entry. -/
def openSession (sessions : Table Text Nat) (identity : Identity) (limits : Limits) :
    Table Text Nat × Except Text Unit :=
  let count := countOf sessions identity.key
  if count ≥ limits.maxSessions then
    (sessions.insert identity.key count, .error (tooManyText identity count limits.maxSessions))
  else (sessions.insert identity.key (count + 1), .ok ())

def closeSession (sessions : Table Text Nat) (identity : Identity) : Table Text Nat :=
  match sessions.lookup identity.key with
  | some count => sessions.insert identity.key (count - 1)
  | none => sessions

theorem countOf_insert (sessions : Table Text Nat) (k key : Text) (count : Nat) :
    countOf (sessions.insert k count) key = if key = k then count else countOf sessions key := by
  by_cases hkey : key = k
  · subst hkey
    simp [countOf]
  · simp [countOf, hkey]

theorem countOf_openSession_ok {sessions : Table Text Nat} {identity : Identity} {limits : Limits}
    (h : (openSession sessions identity limits).2 = .ok ()) :
    countOf sessions identity.key < limits.maxSessions ∧
      ∀ key, countOf (openSession sessions identity limits).1 key =
        countOf sessions key + if key = identity.key then 1 else 0 := by
  by_cases hfull : countOf sessions identity.key ≥ limits.maxSessions
  · simp [openSession, hfull] at h
  · refine ⟨Nat.lt_of_not_le hfull, ?_⟩
    intro key
    simp only [openSession, hfull, if_false, countOf_insert]
    split
    · rename_i hkey
      rw [hkey]
    · rfl

theorem countOf_openSession_error {sessions : Table Text Nat} {identity : Identity}
    {limits : Limits} {reason : Text} (h : (openSession sessions identity limits).2 = .error reason)
    (key : Text) : countOf (openSession sessions identity limits).1 key = countOf sessions key := by
  by_cases hfull : countOf sessions identity.key ≥ limits.maxSessions
  · simp only [openSession, hfull, if_true, countOf_insert]
    split
    · rename_i hkey
      rw [hkey]
    · rfl
  · simp [openSession, hfull] at h

/-- Closing takes one off the identity's count, if there is one to take. -/
theorem countOf_closeSession (sessions : Table Text Nat) (identity : Identity) (key : Text) :
    countOf (closeSession sessions identity) key =
      countOf sessions key - if key = identity.key then 1 else 0 := by
  cases hlookup : sessions.lookup identity.key with
  | none =>
    simp only [closeSession, hlookup]
    by_cases hkey : key = identity.key
    · subst hkey
      simp [countOf, hlookup]
    · simp [hkey]
  | some count =>
    simp only [closeSession, hlookup, countOf_insert]
    by_cases hkey : key = identity.key
    · subst hkey
      simp [countOf, hlookup]
    · simp [hkey]

end Policy

end AiDaemon
