import AiDaemon.GrantFile
import AiDaemon.Policy
import AiDaemon.Transition
import Mathlib.Logic.Function.Basic

/-!
# Remembered grants (`policy.rs`: `check`, `remember`, `set_grant`, `revoke`)

The grant table sits behind a lock and is mirrored in a file.  A call changes
the table and takes a snapshot of it under the lock, then lets go of the lock,
writes the snapshot to one temporary file that all calls share and renames it
over the grants file.  A check that finds nothing remembered lets go of the lock
too, asks polkit for as long as the dialog stays open, and records the answer
with an insert that looks at nothing.

Every lock region and every file operation is a step, so any number of calls
interleave freely.  Two things follow from the gaps between the steps:

* the file ends up equal to the table when no snapshot is written after a newer
  one (`grants_saved_in_order`), and a late writer puts a revoked grant back on
  disk (`revoked_grant_saved`);
* an administrator's decision stands against questions asked before it exactly
  when those answer the same (`admin_stands_iff`), and a dialog left open
  overrules it (`admin_overruled`).
-/

namespace AiDaemon.Grants

open Ledger Transition

/-! ### What `check` asks -/

def capGenerateTools : Text := "generate-tools".toList
def capEmbed : Text := "embed".toList
def capModelAdmin : Text := "model-admin".toList
def capGenerateMedia : Text := "generate-media".toList

inductive Consent where
  | polkit
  | deny
  | allow
deriving DecidableEq, Repr

/-- The part of an `[[identity]]` rule that `check` reads. -/
structure CapabilityRule where
  identity : Text
  capabilities : List Text

/-- The part of the configuration that `check` reads. -/
structure ConsentConfig where
  consent : Consent
  identities : List CapabilityRule

def ConsentConfig.ruleFor (config : ConsentConfig) (identity : Text) : Option CapabilityRule :=
  config.identities.find? fun r => r.identity = identity

/-- What is left to find out when nothing is remembered. -/
inductive Question where
  | polkit (action : Text)
  | settled (decision : Decision) (via : Text)
deriving DecidableEq, Repr

inductive Consulted where
  | answered (result : Except Text Unit)
  | ask (question : Question)

def notGrantedText (identity : Identity) (capability : Text) : Text :=
  identity.key ++ " is not granted ".toList ++ capability ++ " by configuration".toList

def rememberedText (identity : Identity) (capability via : Text) : Text :=
  identity.key ++ " was denied ".toList ++ capability ++
    " by a decision remembered from ".toList ++ via ++
    " — `aidctl grants` lists it and `aidctl revoke ".toList ++ identity.key ++
    "` clears it; until then it is answered here and polkit is not consulted".toList

def mayNotText (identity : Identity) (capability : Text) : Text :=
  identity.key ++ " may not ".toList ++ capability

def unreachableText (identity : Identity) (capability reason : Text) : Text :=
  identity.key ++ " may not ".toList ++ capability ++ ": no authority could be reached (".toList ++
    reason ++ ")".toList

def polkitAction (capability : Text) : Text :=
  if capability = capEmbed then "io.github.agraves.aidaemon.embed".toList
  else if capability = capGenerateTools then "io.github.agraves.aidaemon.generate-tools".toList
  else if capability = capGenerateMedia then "io.github.agraves.aidaemon.generate-media".toList
  else "io.github.agraves.aidaemon.generate".toList

/-- Model administration goes to polkit whatever the consent mode says. -/
def question (config : ConsentConfig) (capability : Text) : Question :=
  if capability = capModelAdmin then .polkit "io.github.agraves.aidaemon.model-admin".toList
  else
    match config.consent with
    | .deny => .settled .deny "default".toList
    | .allow => .settled .allow "config".toList
    | .polkit => .polkit (polkitAction capability)

/-- `check` up to the point where somebody has to be asked: a configured rule
    wins, then what is remembered. -/
def consult (config : ConsentConfig) (grants : GrantTable) (identity : Identity)
    (capability : Text) : Consulted :=
  let remembered :=
    match grants.lookup (identity.key, capability) with
    | some grant =>
      match grant.decision with
      | .allow => .answered (.ok ())
      | .deny => .answered (.error (rememberedText identity capability grant.via))
    | none => .ask (question config capability)
  match config.ruleFor identity.key with
  | some rule =>
    if rule.capabilities = [] then remembered
    else if rule.capabilities.contains capability then .answered (.ok ())
    else .answered (.error (notGrantedText identity capability))
  | none => remembered

/-- What polkit's reply, or its absence, decides. -/
def Question.settle : Question → Except Text Bool → Except Text (Decision × Text)
  | polkit _, .ok true => .ok (.allow, "polkit".toList)
  | polkit _, .ok false => .ok (.deny, "polkit".toList)
  | polkit _, .error reason => .error reason
  | settled decision via, _ => .ok (decision, via)

def checkResult (identity : Identity) (capability : Text) : Decision → Except Text Unit
  | .allow => .ok ()
  | .deny => .error (mayNotText identity capability)

/-! ### Concurrent calls -/

inductive Returned where
  | checked (result : Except Text Unit)
  | granted
  | revoked (removed : Nat)

/-- Where one call stands. `readAt` and `seq` count the changes of the table up
    to the check's reading of it and up to the change the snapshot shows. -/
inductive Call where
  | idle
  | asking (identity : Identity) (capability : Text) (question : Question) (readAt : Nat)
  | saving (seq : Nat) (snapshot : List Grant) (result : Returned)
  | moving (result : Returned)
  | returned (result : Returned)

def Call.over : Call → Bool
  | idle | returned _ => true
  | asking .. | saving .. | moving _ => false

structure GrantState where
  grants : GrantTable
  /-- The grants file and its `json.tmp`. -/
  file : Option Text
  tmp : Option Text
  calls : Nat → Call
  /-- How often the table has changed. -/
  taken : Nat
  /-- The snapshot last written to the temporary file. -/
  written : Nat
  /-- When an administrator last acted on a key, and what that made it. -/
  acted : Text × Text → Option (Nat × Option Decision)
  /-- When the check that last recorded an answer for a key had read the table. -/
  answered : Text × Text → Option Nat

/-- The daemon starts from what the file holds; a temporary file may be left. -/
def GrantState.start (json : GrantJson) (file tmp : Option Text) : GrantState :=
  ⟨loadGrants json file, file, tmp, fun _ => .idle, 0, 0, fun _ => none, fun _ => none⟩

inductive Step where
  | checkRead (caller : Nat) (identity : Identity) (capability : Text)
  | checkAnswer (caller : Nat) (reply : Except Text Bool) (now : Nat) (order : IterOrder Grant)
  | setGrant (caller : Nat) (identity capability : Text) (decision : Decision) (via : Text)
      (now : Nat) (order : IterOrder Grant)
  | revoke (caller : Nat) (identity : Text) (order : IterOrder Grant)
  | write (caller : Nat)
  | rename (caller : Nat)

def setCall (st : GrantState) (caller : Nat) (call : Call) : GrantState :=
  { st with calls := Function.update st.calls caller call }

/-- A change of the table and the snapshot of it, under one lock. -/
def change (st : GrantState) (caller : Nat) (grants : GrantTable) (order : IterOrder Grant)
    (result : Returned) : GrantState :=
  { setCall st caller (.saving (st.taken + 1) (order.visit (values grants)) result) with
    grants := grants, taken := st.taken + 1 }

/-- `remember`. -/
def remember (st : GrantState) (caller : Nat) (grant : Grant) (order : IterOrder Grant)
    (result : Returned) : GrantState :=
  change st caller (st.grants.insert grant.key grant) order result

def grantStep (json : GrantJson) (config : ConsentConfig) (st : GrantState) :
    Step → Option GrantState
  | .checkRead caller identity capability =>
    if (st.calls caller).over then
      match consult config st.grants identity capability with
      | .answered result => some (setCall st caller (.returned (.checked result)))
      | .ask question => some (setCall st caller (.asking identity capability question st.taken))
    else none
  | .checkAnswer caller reply now order =>
    match st.calls caller with
    | .asking identity capability question readAt =>
      match question.settle reply with
      | .error reason =>
        -- nobody could be asked, which is not recorded as an answer
        some (setCall st caller
          (.returned (.checked (.error (unreachableText identity capability reason)))))
      | .ok (decision, via) =>
        let grant : Grant := ⟨identity.key, capability, decision, now, via⟩
        some { remember st caller grant order (.checked (checkResult identity capability decision))
          with answered := Function.update st.answered grant.key (some readAt) }
    | _ => none
  | .setGrant caller identity capability decision via now order =>
    if (st.calls caller).over then
      let grant : Grant := ⟨identity, capability, decision, now, via⟩
      some { remember st caller grant order .granted with
        acted := Function.update st.acted grant.key (some (st.taken + 1, some decision)) }
    else none
  | .revoke caller identity order =>
    if (st.calls caller).over then
      let grants := retain (fun key => key.1 ≠ identity) st.grants
      let removed := st.grants.entries.length - grants.entries.length
      some { change st caller grants order (.revoked removed) with
        acted := fun key => if key.1 = identity then some (st.taken + 1, none) else st.acted key }
    else none
  | .write caller =>
    match st.calls caller with
    | .saving seq snapshot result =>
      some { setCall st caller (.moving result) with
        tmp := some (grantText json snapshot), written := seq }
    | _ => none
  | .rename caller =>
    match st.calls caller with
    | .moving result =>
      -- without a temporary file the rename fails, which the callers ignore
      match st.tmp with
      | some text =>
        some { setCall st caller (.returned result) with file := some text, tmp := none }
      | none => some (setCall st caller (.returned result))
    | _ => none

/-! ### The file follows the table -/

/-- The file loads to the table. -/
def Loads (json : GrantJson) (file : Option Text) (grants : GrantTable) : Prop :=
  ∀ key, (loadGrants json file).lookup key = grants.lookup key

/-- No snapshot is written after a newer one. -/
def NewestLast (st : GrantState) : Step → Prop
  | .write caller =>
    match st.calls caller with
    | .saving seq _ _ => st.written < seq
    | _ => True
  | _ => True

/-- The call has a snapshot to save, or to move into place. -/
def Call.onDisk : Call → Bool
  | saving .. | moving _ => true
  | idle | asking .. | returned _ => false

structure SaveInv (json : GrantJson) (st : GrantState) : Prop where
  keyed : Keyed Grant.key st.grants
  bound : st.written ≤ st.taken
  shows : ∀ i seq snapshot result, st.calls i = .saving seq snapshot result →
    seq ≤ st.taken ∧ (seq = st.taken → snapshot.Perm (values st.grants))
  /-- Whoever changed the table last still holds what it looks like. -/
  pending : st.written < st.taken →
    ∃ i snapshot result, st.calls i = .saving st.taken snapshot result
  settled : st.written = st.taken →
    (∃ text, st.tmp = some text ∧ Loads json (some text) st.grants ∧
      ∃ i result, st.calls i = .moving result) ∨
    (Loads json st.file st.grants ∧ (st.tmp = none ∨ ∀ i result, st.calls i ≠ .moving result))

section Saving

variable {json : GrantJson} {st : GrantState}

theorem calls_setCall (caller : Nat) (call : Call) (i : Nat) :
    (setCall st caller call).calls i = if i = caller then call else st.calls i := by
  by_cases hi : i = caller
  · subst hi
    simp [setCall]
  · simp [setCall, hi]

theorem onDisk_of_over {call : Call} (h : call.over = true) : call.onDisk = false := by
  cases call <;> simp [Call.over, Call.onDisk] at *

/-- A step of a call that touches neither the table nor the disk. -/
theorem setCall_saveInv (hinv : SaveInv json st) {caller : Nat} {call : Call}
    (hold : (st.calls caller).onDisk = false) (hnew : call.onDisk = false) :
    SaveInv json (setCall st caller call) := by
  have hsame : ∀ i c, c.onDisk = true →
      ((setCall st caller call).calls i = c ↔ st.calls i = c) := by
    intro i c hc
    rw [calls_setCall]
    split
    · rename_i hi
      constructor
      · intro h
        rw [← h, hnew] at hc
        exact absurd hc (by simp)
      · intro h
        rw [← h, hi, hold] at hc
        exact absurd hc (by simp)
    · rfl
  refine ⟨hinv.keyed, hinv.bound, ?_, ?_, ?_⟩
  · intro i seq snapshot result h
    exact hinv.shows i seq snapshot result ((hsame i _ rfl).mp h)
  · intro hlt
    obtain ⟨i, snapshot, result, h⟩ := hinv.pending hlt
    exact ⟨i, snapshot, result, (hsame i _ rfl).mpr h⟩
  · intro heq
    rcases hinv.settled heq with ⟨text, htmp, hload, i, result, h⟩ | ⟨hload, hquiet⟩
    · exact Or.inl ⟨text, htmp, hload, i, result, (hsame i _ rfl).mpr h⟩
    · refine Or.inr ⟨hload, hquiet.imp_right ?_⟩
      intro hnone i result h
      exact hnone i result ((hsame i _ rfl).mp h)

/-- Who acted on a key and who answered is beside the point here. -/
theorem SaveInv.note (hinv : SaveInv json st)
    (acted : Text × Text → Option (Nat × Option Decision)) (answered : Text × Text → Option Nat) :
    SaveInv json { st with acted := acted, answered := answered } :=
  ⟨hinv.keyed, hinv.bound, hinv.shows, hinv.pending, hinv.settled⟩

theorem change_saveInv (hinv : SaveInv json st) (caller : Nat) {grants : GrantTable}
    (hkeyed : Keyed Grant.key grants) (order : IterOrder Grant) (result : Returned) :
    SaveInv json (change st caller grants order result) := by
  have hbound := hinv.bound
  refine ⟨hkeyed, Nat.le_succ_of_le hbound, ?_, ?_, ?_⟩
  · intro i seq snapshot result' h
    simp only [change, calls_setCall] at h
    split at h
    · injection h with hseq hsnapshot
      subst hseq hsnapshot
      exact ⟨Nat.le_refl _, fun _ => order.perm _⟩
    · have hle := (hinv.shows i seq snapshot result' h).1
      refine ⟨Nat.le_succ_of_le hle, fun heq => ?_⟩
      simp only [change] at heq
      omega
  · intro _
    refine ⟨caller, order.visit (values grants), result, ?_⟩
    simp [change, calls_setCall]
  · intro heq
    simp only [change, setCall] at heq
    omega

theorem write_saveInv (hinv : SaveInv json st) {caller seq : Nat} {snapshot : List Grant}
    {result : Returned} (hcall : st.calls caller = .saving seq snapshot result)
    (hnewer : st.written < seq) :
    SaveInv json { setCall st caller (.moving result) with
      tmp := some (grantText json snapshot), written := seq } := by
  obtain ⟨hle, hlast⟩ := hinv.shows caller seq snapshot result hcall
  have hother : ∀ i s l r, (setCall st caller (.moving result)).calls i = .saving s l r →
      st.calls i = .saving s l r := by
    intro i s l r h
    rw [calls_setCall] at h
    split at h
    · simp at h
    · exact h
  refine ⟨hinv.keyed, hle, ?_, ?_, ?_⟩
  · exact fun i s l r h => hinv.shows i s l r (hother i s l r h)
  · intro (hlt : seq < st.taken)
    -- the newest snapshot is another call's, which still has to write it
    obtain ⟨i, l, r, h⟩ := hinv.pending (Nat.lt_trans hnewer hlt)
    refine ⟨i, l, r, ?_⟩
    show (setCall st caller (.moving result)).calls i = .saving st.taken l r
    rw [calls_setCall, if_neg ?_]
    · exact h
    · intro hi
      rw [hi, hcall] at h
      injection h with hseq
      omega
  · intro heq
    left
    refine ⟨_, rfl, loadGrants_grantText json hinv.keyed (hlast heq), caller, result, ?_⟩
    show (setCall st caller (.moving result)).calls caller = .moving result
    rw [calls_setCall, if_pos rfl]

theorem rename_saveInv (hinv : SaveInv json st) {caller : Nat} {result : Returned}
    (hcall : st.calls caller = .moving result) {next : GrantState}
    (hcalls : next.calls = (setCall st caller (.returned result)).calls)
    (hgrants : next.grants = st.grants) (htaken : next.taken = st.taken)
    (hwritten : next.written = st.written) (htmp : next.tmp = none)
    (hfile : next.file = if st.tmp = none then st.file else st.tmp) : SaveInv json next := by
  have hsaving : ∀ i s l r, next.calls i = .saving s l r ↔ st.calls i = .saving s l r := by
    intro i s l r
    rw [hcalls, calls_setCall]
    split
    · rename_i hi
      rw [hi, hcall]
      simp
    · rfl
  refine ⟨?_, ?_, ?_, ?_, ?_⟩
  · rw [hgrants]
    exact hinv.keyed
  · rw [htaken, hwritten]
    exact hinv.bound
  · intro i s l r h
    rw [htaken, hgrants]
    exact hinv.shows i s l r ((hsaving i s l r).mp h)
  · rw [htaken, hwritten]
    intro hlt
    obtain ⟨i, l, r, h⟩ := hinv.pending hlt
    exact ⟨i, l, r, (hsaving i _ l r).mpr h⟩
  · rw [htaken, hwritten, hgrants, hfile]
    intro heq
    refine Or.inr ⟨?_, Or.inl htmp⟩
    rcases hinv.settled heq with ⟨text, hsome, hload, -⟩ | ⟨hload, hnone | hquiet⟩
    · rw [hsome, if_neg (by simp)]
      exact hload
    · rw [if_pos hnone]
      exact hload
    · exact absurd hcall (hquiet caller result)

end Saving

theorem start_saveInv (json : GrantJson) (file tmp : Option Text) :
    SaveInv json (GrantState.start json file tmp) := by
  refine ⟨keyed_loadGrants json file, Nat.le_refl _, ?_, ?_, ?_⟩
  · intro i seq snapshot result h
    simp [GrantState.start] at h
  · intro hlt
    exact absurd hlt (Nat.lt_irrefl _)
  · intro _
    refine Or.inr ⟨fun _ => rfl, Or.inr ?_⟩
    intro i result h
    simp [GrantState.start] at h

theorem grantStep_saveInv {json : GrantJson} {config : ConsentConfig} {st next : GrantState}
    {a : Step} (hinv : SaveInv json st) (horder : NewestLast st a)
    (h : grantStep json config st a = some next) : SaveInv json next := by
  cases a with
  | checkRead caller identity capability =>
    simp only [grantStep] at h
    split at h
    · rename_i hover
      have hold := onDisk_of_over hover
      split at h <;> simp only [Option.some.injEq] at h <;> rw [← h] <;>
        exact setCall_saveInv hinv hold rfl
    · simp at h
  | checkAnswer caller reply now order =>
    simp only [grantStep] at h
    split at h
    · rename_i identity capability question readAt hcall
      split at h
      · simp only [Option.some.injEq] at h
        rw [← h]
        exact setCall_saveInv hinv (by rw [hcall]; rfl) rfl
      · simp only [Option.some.injEq] at h
        rw [← h]
        exact (change_saveInv hinv caller (hinv.keyed.insert _) order _).note _ _
    · simp at h
  | setGrant caller identity capability decision via now order =>
    simp only [grantStep] at h
    split at h
    · simp only [Option.some.injEq] at h
      rw [← h]
      exact (change_saveInv hinv caller (hinv.keyed.insert _) order _).note _ _
    · simp at h
  | revoke caller identity order =>
    simp only [grantStep] at h
    split at h
    · simp only [Option.some.injEq] at h
      rw [← h]
      exact (change_saveInv hinv caller (hinv.keyed.retain _) order _).note _ _
    · simp at h
  | write caller =>
    simp only [grantStep] at h
    split at h
    · rename_i seq snapshot result hcall
      simp only [Option.some.injEq] at h
      simp only [NewestLast, hcall] at horder
      rw [← h]
      exact write_saveInv hinv hcall horder
    · simp at h
  | rename caller =>
    simp only [grantStep] at h
    split at h
    · rename_i result hcall
      split at h
      · rename_i text htmp
        simp only [Option.some.injEq] at h
        rw [← h]
        exact rename_saveInv hinv hcall rfl rfl rfl rfl rfl (by rw [htmp]; rfl)
      · rename_i htmp
        simp only [Option.some.injEq] at h
        rw [← h]
        exact rename_saveInv hinv hcall rfl rfl rfl rfl htmp (by rw [if_pos htmp]; rfl)
    · simp at h

/-- When every call has returned, and none wrote its snapshot after a newer one,
    the grants file loads to the table. -/
theorem grants_saved_in_order (json : GrantJson) (config : ConsentConfig) (file tmp : Option Text)
    (steps : List Step) (st : GrantState)
    (hrun : runs (grantStep json config) (GrantState.start json file tmp) steps = some st)
    (horder : along (grantStep json config) NewestLast (GrantState.start json file tmp) steps)
    (hover : ∀ i, (st.calls i).over = true) : Loads json st.file st.grants := by
  have hinv : SaveInv json st :=
    runs_invariant_along (grantStep json config) (P := SaveInv json) (C := NewestLast)
      (fun _ _ _ => grantStep_saveInv) (start_saveInv json file tmp) horder hrun
  have hquiet : ∀ i, (st.calls i).onDisk = false := fun i => onDisk_of_over (hover i)
  have hwritten : st.written = st.taken := by
    by_contra hne
    obtain ⟨i, snapshot, result, hcall⟩ := hinv.pending (Nat.lt_of_le_of_ne hinv.bound hne)
    have hbusy := hquiet i
    rw [hcall] at hbusy
    simp [Call.onDisk] at hbusy
  rcases hinv.settled hwritten with ⟨-, -, -, i, result, hcall⟩ | ⟨hload, -⟩
  · have hbusy := hquiet i
    rw [hcall] at hbusy
    simp [Call.onDisk] at hbusy
  · exact hload

/-- A grant as an administrator makes it. -/
def editorGrant : Grant :=
  ⟨"unit:editor@1000".toList, "generate".toList, .allow, 1700000000, "admin".toList⟩

def setEditor (caller : Nat) : Step :=
  .setGrant caller editorGrant.identity editorGrant.capability editorGrant.decision editorGrant.via
    editorGrant.decidedAt (.stored Grant)

def revokeEditor (caller : Nat) : Step := .revoke caller editorGrant.identity (.stored Grant)

def polkitConfig : ConsentConfig := ⟨.polkit, []⟩

/-- Two calls interleaved, with their writes in the order of their snapshots. -/
theorem grant_revoked_saved :
    ∃ st, runs (grantStep prettyJson polkitConfig) (GrantState.start prettyJson none none)
        [setEditor 0, revokeEditor 1, .write 0, .write 1, .rename 0, .rename 1] = some st ∧
      Loads prettyJson st.file st.grants := by
  refine ⟨_, rfl, ?_⟩
  apply grants_saved_in_order prettyJson polkitConfig none none
    [setEditor 0, revokeEditor 1, .write 0, .write 1, .rename 0, .rename 1] _ rfl
  · exact ⟨trivial, trivial, Nat.lt_add_one 0, Nat.lt_add_one 1, trivial, trivial, trivial⟩
  · intro i
    by_cases h0 : i = 0
    · subst h0; rfl
    · by_cases h1 : i = 1
      · subst h1; rfl
      · simp [setCall, change, remember, GrantState.start, h0, h1, Call.over]

/-- The grant's snapshot is written last, over the file the revocation wrote. -/
theorem revoked_grant_saved :
    ¬ ∀ (json : GrantJson) (config : ConsentConfig) (file tmp : Option Text) (steps : List Step)
      (st : GrantState),
      runs (grantStep json config) (GrantState.start json file tmp) steps = some st →
      (∀ i, (st.calls i).over = true) → Loads json st.file st.grants := by
  intro hall
  have hload := hall prettyJson polkitConfig none none
    [setEditor 0, revokeEditor 1, .write 1, .rename 1, .write 0, .rename 0] _ rfl
    (by
      intro i
      by_cases h0 : i = 0
      · subst h0; rfl
      · by_cases h1 : i = 1
        · subst h1; rfl
        · simp [setCall, change, remember, GrantState.start, h0, h1, Call.over])
    editorGrant.key
  have hsnapshot := loadGrants_grantText prettyJson
    ((keyed_empty Grant.key).insert editorGrant) (List.Perm.refl _) editorGrant.key
  rw [AList.lookup_insert] at hsnapshot
  have hgone : ((retain (fun key => key.1 ≠ editorGrant.identity)
      ((∅ : GrantTable).insert editorGrant.key editorGrant)).lookup editorGrant.key) = none := by
    rw [lookup_retain, if_neg (by simp [Grant.key])]
  have hstale := hsnapshot.symm.trans (hload.trans hgone)
  simp at hstale

/-! ### The administrator's word -/

/-- An administrator's decision on a key stands unless a check that read the
    table after it has recorded an answer. -/
def AdminStands (st : GrantState) : Prop :=
  ∀ key time decision, st.acted key = some (time, decision) →
    (∀ readAt, st.answered key = some readAt → readAt < time) →
    (st.grants.lookup key).map Grant.decision = decision

/-- A check that records an answer after an administrator acted on what it asks
    about answers what the administrator decided. -/
def AnswersAlike (st : GrantState) : Step → Prop
  | .checkAnswer caller reply _ _ =>
    match st.calls caller with
    | .asking identity capability question readAt =>
      match question.settle reply, st.acted (identity.key, capability) with
      | .ok (decision, _), some (time, decided) => readAt < time → decided = some decision
      | _, _ => True
    | _ => True
  | _ => True

theorem decision_insert (grants : GrantTable) (grant : Grant) (key : Text × Text) :
    ((grants.insert grant.key grant).lookup key).map Grant.decision =
      if key = grant.key then some grant.decision else (grants.lookup key).map Grant.decision := by
  by_cases hkey : key = grant.key
  · subst hkey
    simp
  · simp [hkey]

theorem setGrant_stands {st : GrantState} (hstands : AdminStands st) (caller : Nat) (grant : Grant)
    (order : IterOrder Grant) (time : Nat) :
    AdminStands { remember st caller grant order .granted with
      acted := Function.update st.acted grant.key (some (time, some grant.decision)) } := by
  intro key t decision hacted hanswered
  show ((st.grants.insert grant.key grant).lookup key).map Grant.decision = decision
  rw [decision_insert]
  by_cases hkey : key = grant.key
  · subst hkey
    simp only [Function.update_self, Option.some.injEq, Prod.mk.injEq] at hacted
    rw [if_pos rfl, hacted.2]
  · simp only [Function.update_of_ne hkey] at hacted
    rw [if_neg hkey]
    exact hstands key t decision hacted hanswered

theorem revoke_stands {st : GrantState} (hstands : AdminStands st) (caller : Nat) (identity : Text)
    (order : IterOrder Grant) (result : Returned) (time : Nat) :
    AdminStands
    { change st caller (retain (fun key => key.1 ≠ identity) st.grants) order result with
      acted := fun key => if key.1 = identity then some (time, none) else st.acted key } := by
  intro key t decision hacted hanswered
  show ((retain (fun key => key.1 ≠ identity) st.grants).lookup key).map Grant.decision = decision
  rw [lookup_retain]
  by_cases hkey : key.1 = identity
  · simp only [hkey, if_true, Option.some.injEq, Prod.mk.injEq] at hacted
    rw [if_neg (by simpa using hkey), ← hacted.2]
    rfl
  · simp only [hkey, if_false] at hacted
    rw [if_pos (by simpa using hkey)]
    exact hstands key t decision hacted hanswered

/-- An answer leaves the administrator's word standing exactly when it is the
    same, or was asked for later. -/
theorem answer_stands_iff {st : GrantState} (hstands : AdminStands st) (caller : Nat)
    (grant : Grant) (order : IterOrder Grant) (result : Returned) (readAt : Nat) :
    AdminStands { remember st caller grant order result with
        answered := Function.update st.answered grant.key (some readAt) } ↔
      ∀ time decided, st.acted grant.key = some (time, decided) → readAt < time →
        decided = some grant.decision := by
  constructor
  · intro hnext time decided hacted hlt
    have hentry := hnext grant.key time decided hacted (by
      intro r hr
      simp only [Function.update_self, Option.some.injEq] at hr
      omega)
    simp only [remember, change, decision_insert, if_true] at hentry
    exact hentry.symm
  · intro halike key t decision hacted hanswered
    show ((st.grants.insert grant.key grant).lookup key).map Grant.decision = decision
    rw [decision_insert]
    by_cases hkey : key = grant.key
    · subst hkey
      rw [if_pos rfl]
      exact (halike t decision hacted (hanswered readAt (by simp))).symm
    · simp only [Function.update_of_ne hkey] at hanswered
      rw [if_neg hkey]
      exact hstands key t decision hacted hanswered

theorem grantStep_stands_iff {json : GrantJson} {config : ConsentConfig} (st : GrantState)
    (a : Step) (hstands : AdminStands st) :
    Keeps (grantStep json config) AdminStands st a ↔ AnswersAlike st a := by
  cases a with
  | checkRead caller identity capability =>
    refine iff_of_true ?_ trivial
    intro next h
    simp only [grantStep] at h
    split at h
    · split at h <;> simp only [Option.some.injEq] at h <;> rw [← h] <;> exact hstands
    · simp at h
  | checkAnswer caller reply now order =>
    unfold Keeps
    simp only [grantStep, AnswersAlike]
    split
    · rename_i identity capability question readAt hcall
      split
      · rename_i reason hsettle
        simp only [hsettle, Option.some.injEq]
        refine iff_of_true ?_ trivial
        rintro next rfl
        exact hstands
      · rename_i decision via hsettle
        simp only [hsettle, Option.some.injEq, forall_eq']
        rw [answer_stands_iff hstands]
        simp only [Grant.key]
        cases st.acted (identity.key, capability) with
        | none => simp
        | some act =>
          obtain ⟨time, decided⟩ := act
          simp
    · simp
  | setGrant caller identity capability decision via now order =>
    refine iff_of_true ?_ trivial
    intro next h
    simp only [grantStep] at h
    split at h
    · simp only [Option.some.injEq] at h
      rw [← h]
      exact setGrant_stands hstands caller ⟨identity, capability, decision, now, via⟩ order _
    · simp at h
  | revoke caller identity order =>
    refine iff_of_true ?_ trivial
    intro next h
    simp only [grantStep] at h
    split at h
    · simp only [Option.some.injEq] at h
      rw [← h]
      exact revoke_stands hstands caller identity order _ _
    · simp at h
  | write caller =>
    refine iff_of_true ?_ trivial
    intro next h
    simp only [grantStep] at h
    split at h
    · simp only [Option.some.injEq] at h
      rw [← h]
      exact hstands
    · simp at h
  | rename caller =>
    refine iff_of_true ?_ trivial
    intro next h
    simp only [grantStep] at h
    split at h
    · split at h <;> simp only [Option.some.injEq] at h <;> rw [← h] <;> exact hstands
    · simp at h

theorem start_stands (json : GrantJson) (file tmp : Option Text) :
    AdminStands (GrantState.start json file tmp) := by
  intro key time decision hacted
  simp [GrantState.start] at hacted

/-- In a run, the administrator's word stands in every state exactly when every
    check that was overtaken by it answers the same. -/
theorem admin_stands_iff (json : GrantJson) (config : ConsentConfig) (file tmp : Option Text)
    (steps : List Step) :
    along (grantStep json config) (Keeps (grantStep json config) AdminStands)
        (GrantState.start json file tmp) steps ↔
      along (grantStep json config) AnswersAlike (GrantState.start json file tmp) steps :=
  along_keeps_iff (grantStep json config) (fun st a => grantStep_stands_iff st a) steps
    (start_stands json file tmp)

/-- A caller in the unit the grant is for. -/
def editor : Identity where
  cls := .native
  uid := 1000
  gid := 1000
  pid := 4242
  unit := some "editor".toList
  appId := none
  exe := none
  client := none
  attested := false

/-- The administrator denies while the dialog is open, and then the user allows. -/
theorem admin_overruled :
    ¬ ∀ (json : GrantJson) (config : ConsentConfig) (file tmp : Option Text) (steps : List Step)
      (st : GrantState),
      runs (grantStep json config) (GrantState.start json file tmp) steps = some st →
      AdminStands st := by
  intro hall
  have hstands := hall prettyJson polkitConfig none none
    [.checkRead 0 editor "generate".toList,
      .setGrant 1 editor.key "generate".toList .deny "admin".toList 1700000000 (.stored Grant),
      .checkAnswer 0 (.ok true) 1700000060 (.stored Grant)]
    _ rfl (editor.key, "generate".toList) 1 (some .deny)
    (by simp [remember, change, setCall, Grant.key]; rfl)
    (by simp [Grant.key, GrantState.start])
  simp [remember, change, Grant.key] at hstands

end AiDaemon.Grants
