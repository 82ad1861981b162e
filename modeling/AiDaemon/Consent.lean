import AiDaemon.Grants

/-!
# Consent, one call after another (`policy.rs`: `check`; `polkit.rs`: `interpret`)

A `check` that no other call overlaps reads the table, asks whoever has to be
asked and records the answer, all in one.  Three sources of authority can decide
it, in this order: a configured list of capabilities, a remembered decision, and
consent, which is polkit's answer or the consent mode.  Only the last is written
down, and only when somebody was there to answer.

`consent_decisions` says what a check answers and what it leaves in the table
after any run of checks, grants and revocations, and where the entries of the
table come from.
-/

namespace AiDaemon.Grants

open Ledger

/-! ### Asking polkit -/

/-- What the authority replies about an action, asked with details or without:
    whether the subject is authorized and whether authentication is open. -/
abbrev Authority := Text → Bool → Except Text (Bool × Bool)

def unansweredText : Text :=
  ("polkit requires authentication for this action and no authentication agent answered; " ++
    "run an agent (pkttyagent works on a terminal) or grant the action in a polkit rule").toList

def interpret : Bool → Bool → Except Text Bool
  | true, _ => .ok true
  | false, false => .ok false
  | false, true => .error unansweredText

def askAuthority (authority : Authority) (action : Text) (details : Bool) : Except Text Bool :=
  match authority action details with
  | .error e => .error e
  | .ok (authorized, challenge) => interpret authorized challenge

/-- `check_authorization`. An authority that refuses the details is asked again
    without them. -/
def checkAuthorization (authority : Authority) (action : Text) : Except Text Bool :=
  match askAuthority authority action true with
  | .ok authorized => .ok authorized
  | .error e =>
    if "pass details".toList <:+: e then askAuthority authority action false else .error e

/-- `ask_polkit`. There may be no bus to reach the authority on. -/
def askPolkit (bus : Option Authority) (action : Text) : Except Text Bool :=
  match bus with
  | none => .error "the daemon has no bus connection to reach polkit on".toList
  | some authority => checkAuthorization authority action

/-! ### The calls -/

/-- Whom a question goes to, and what comes back. -/
def Question.answer (bus : Option Authority) : Question → Except Text (Decision × Text)
  | polkit action => (polkit action).settle (askPolkit bus action)
  | settled decision via => .ok (decision, via)

def check (config : ConsentConfig) (bus : Option Authority) (now : Nat) (grants : GrantTable)
    (identity : Identity) (capability : Text) : GrantTable × Except Text Unit :=
  match consult config grants identity capability with
  | .answered result => (grants, result)
  | .ask question =>
    match question.answer bus with
    | .error reason => (grants, .error (unreachableText identity capability reason))
    | .ok (decision, via) =>
      let grant : Grant := ⟨identity.key, capability, decision, now, via⟩
      (grants.insert grant.key grant, checkResult identity capability decision)

inductive Act where
  | check (bus : Option Authority) (now : Nat) (identity : Identity) (capability : Text)
  | setGrant (identity capability : Text) (decision : Decision) (via : Text) (now : Nat)
  | revoke (identity : Text)

def act (config : ConsentConfig) (grants : GrantTable) : Act → GrantTable
  | .check bus now identity capability => (check config bus now grants identity capability).1
  | .setGrant identity capability decision via now =>
    let grant : Grant := ⟨identity, capability, decision, now, via⟩
    grants.insert grant.key grant
  | .revoke identity => retain (fun key => key.1 ≠ identity) grants

/-- The table after the calls. -/
def after (config : ConsentConfig) (grants : GrantTable) (acts : List Act) : GrantTable :=
  acts.foldl (act config) grants

/-! ### The same calls among others

A call that is let through from its first step to its last region of the lock
leaves the table as the call above does. -/

section Alone

open Transition

variable (json : GrantJson) (config : ConsentConfig) {st : GrantState} {caller : Nat}

theorem check_alone (hidle : (st.calls caller).over = true) (bus : Option Authority) (now : Nat)
    (identity : Identity) (capability : Text) (order : IterOrder Grant) :
    ∃ reply as, (as = [] ∨ as = [.checkAnswer caller reply now order]) ∧
      (runs (grantStep json config) st (.checkRead caller identity capability :: as)).map
          GrantState.grants =
        some (check config bus now st.grants identity capability).1 := by
  cases hconsult : consult config st.grants identity capability with
  | answered result =>
    refine ⟨.ok true, [], Or.inl rfl, ?_⟩
    simp only [runs, grantStep, hidle, if_true, hconsult, check]
    rfl
  | ask question =>
    -- a question that is settled already pays no heed to the reply
    have hreply : ∃ reply, question.settle reply = question.answer bus := by
      cases question with
      | polkit action => exact ⟨askPolkit bus action, rfl⟩
      | settled decision via => exact ⟨.ok true, rfl⟩
    obtain ⟨reply, hreply⟩ := hreply
    have hcall : (setCall st caller (.asking identity capability question st.taken)).calls caller =
        .asking identity capability question st.taken := by simp [setCall]
    refine ⟨reply, _, Or.inr rfl, ?_⟩
    simp only [runs, grantStep, hidle, if_true, hconsult, hcall, hreply, check]
    cases question.answer bus with
    | error reason => rfl
    | ok decided => rfl

theorem setGrant_alone (hidle : (st.calls caller).over = true) (identity capability : Text)
    (decision : Decision) (via : Text) (now : Nat) (order : IterOrder Grant) :
    (grantStep json config st (.setGrant caller identity capability decision via now order)).map
        GrantState.grants =
      some (act config st.grants (.setGrant identity capability decision via now)) := by
  rw [grantStep, if_pos hidle]
  rfl

theorem revoke_alone (hidle : (st.calls caller).over = true) (identity : Text)
    (order : IterOrder Grant) :
    (grantStep json config st (.revoke caller identity order)).map GrantState.grants =
      some (act config st.grants (.revoke identity)) := by
  rw [grantStep, if_pos hidle]
  rfl

end Alone

/-! ### Who decides -/

/-- The capabilities a rule lists for the identity, where one lists any. -/
def listed (config : ConsentConfig) (identity : Identity) : Option (List Text) :=
  (config.ruleFor identity.key).bind fun rule =>
    if rule.capabilities = [] then none else some rule.capabilities

/-- The action polkit is asked about. -/
def actionOf (capability : Text) : Text :=
  if capability = capModelAdmin then "io.github.agraves.aidaemon.model-admin".toList
  else polkitAction capability

/-- Nobody but polkit can decide this. -/
def ByPolkit (config : ConsentConfig) (capability : Text) : Prop :=
  capability = capModelAdmin ∨ config.consent = .polkit

/-- Neither configured nor remembered. -/
def Undecided (config : ConsentConfig) (grants : GrantTable) (identity : Identity)
    (capability : Text) : Prop :=
  listed config identity = none ∧ grants.lookup (identity.key, capability) = none

/-- Consent was asked for and given. -/
def Consented (config : ConsentConfig) (bus : Option Authority) (capability : Text) : Prop :=
  (askPolkit bus (actionOf capability) = .ok true ∧ ByPolkit config capability) ∨
    (config.consent = .allow ∧ capability ≠ capModelAdmin)

/-- What permits a capability: the list, where there is one; else what is
    remembered, where anything is; else consent. -/
def Permitted (config : ConsentConfig) (bus : Option Authority) (grants : GrantTable)
    (identity : Identity) (capability : Text) : Prop :=
  match listed config identity with
  | some capabilities => capability ∈ capabilities
  | none =>
    match grants.lookup (identity.key, capability) with
    | some grant => grant.decision = .allow
    | none => Consented config bus capability

/-- Somebody has to be asked and nobody can be. -/
def Unreachable (config : ConsentConfig) (bus : Option Authority) (capability : Text) : Prop :=
  ByPolkit config capability ∧ ∃ reason, askPolkit bus (actionOf capability) = .error reason

section Decisions

variable {config : ConsentConfig} {bus : Option Authority} {grants : GrantTable}
  {identity : Identity} {capability : Text}

theorem consult_listed {capabilities : List Text} (h : listed config identity = some capabilities) :
    consult config grants identity capability =
      .answered (if capability ∈ capabilities then .ok ()
        else .error (notGrantedText identity capability)) := by
  rw [listed, Option.bind_eq_some_iff] at h
  obtain ⟨rule, hrule, hlist⟩ := h
  by_cases hempty : rule.capabilities = []
  · simp [hempty] at hlist
  · rw [if_neg hempty, Option.some.injEq] at hlist
    subst hlist
    rw [consult, hrule]
    by_cases hmem : capability ∈ rule.capabilities
    · simp [hempty, hmem]
    · simp [hempty, hmem]

/-- Without a list, what is remembered answers. -/
theorem consult_unlisted (h : listed config identity = none) :
    consult config grants identity capability =
      match grants.lookup (identity.key, capability) with
      | some grant =>
        match grant.decision with
        | .allow => .answered (.ok ())
        | .deny => .answered (.error (rememberedText identity capability grant.via))
      | none => .ask (question config capability) := by
  rw [listed] at h
  unfold consult
  cases hrule : config.ruleFor identity.key with
  | none => rfl
  | some rule =>
    have hempty : rule.capabilities = [] := by simpa [hrule] using h
    exact if_pos hempty

theorem consult_undecided (h : Undecided config grants identity capability) :
    consult config grants identity capability = .ask (question config capability) := by
  rw [consult_unlisted h.1, h.2]

/-- Where nothing is configured or remembered the question has three answers. -/
theorem question_answer (config : ConsentConfig) (bus : Option Authority) (capability : Text) :
    (Unreachable config bus capability ∧
        ∃ reason, (question config capability).answer bus = .error reason) ∨
      (¬ Unreachable config bus capability ∧ ∃ decision via,
        (question config capability).answer bus = .ok (decision, via) ∧
          (decision = .allow ↔ Consented config bus capability)) := by
  have hpolkit : ∀ action, question config capability = .polkit action →
      action = actionOf capability → ByPolkit config capability →
      ¬ (config.consent = .allow ∧ capability ≠ capModelAdmin) →
      (Unreachable config bus capability ∧
        ∃ reason, (question config capability).answer bus = .error reason) ∨
      (¬ Unreachable config bus capability ∧ ∃ decision via,
        (question config capability).answer bus = .ok (decision, via) ∧
          (decision = .allow ↔ Consented config bus capability)) := by
    rintro action hquestion rfl hby hmode
    rw [hquestion, Question.answer]
    cases hask : askPolkit bus (actionOf capability) with
    | error reason => exact Or.inl ⟨⟨hby, reason, hask⟩, reason, rfl⟩
    | ok authorized =>
      refine Or.inr ⟨?_, ?_⟩
      · rintro ⟨-, reason, hreason⟩
        rw [hask] at hreason
        cases hreason
      cases authorized with
      | true => exact ⟨.allow, "polkit".toList, rfl, by simp [Consented, hask, hby]⟩
      | false => exact ⟨.deny, "polkit".toList, rfl, by simp [Consented, hask, hmode]⟩
  by_cases hadmin : capability = capModelAdmin
  · exact hpolkit _ (by rw [question, if_pos hadmin]) (by rw [actionOf, if_pos hadmin])
      (Or.inl hadmin) (fun h => h.2 hadmin)
  · cases hmode : config.consent with
    | polkit =>
      exact hpolkit _ (by rw [question, if_neg hadmin, hmode]) (by rw [actionOf, if_neg hadmin])
        (Or.inr hmode) (by simp [hmode])
    | deny =>
      refine Or.inr ⟨?_, .deny, "default".toList, ?_, ?_⟩
      · simp [Unreachable, ByPolkit, hadmin, hmode]
      · rw [question, if_neg hadmin, hmode]
        rfl
      · simp [Consented, ByPolkit, hadmin, hmode]
    | allow =>
      refine Or.inr ⟨?_, .allow, "config".toList, ?_, ?_⟩
      · simp [Unreachable, ByPolkit, hadmin, hmode]
      · rw [question, if_neg hadmin, hmode]
        rfl
      · simp [Consented, hadmin, hmode]

theorem checkResult_eq_ok {decision : Decision} :
    checkResult identity capability decision = .ok () ↔ decision = .allow := by
  cases decision with
  | allow => simp [checkResult]
  | deny => simp [checkResult]

/-- What a check leaves in the table. -/
structure Recorded (identity : Identity) (capability : Text) (now : Nat) (grants : GrantTable)
    (checked : GrantTable × Except Text Unit) : Prop where
  one : ∃ decision via, (decision = .allow ↔ checked.2 = .ok ()) ∧
    checked.1 =
      grants.insert (identity.key, capability) ⟨identity.key, capability, decision, now, via⟩

/-- **One check**: what decides it, and what it writes down. -/
theorem check_decides (config : ConsentConfig) (bus : Option Authority) (now : Nat)
    (grants : GrantTable) (identity : Identity) (capability : Text) :
    ((check config bus now grants identity capability).2 = .ok () ↔
        Permitted config bus grants identity capability) ∧
      (Undecided config grants identity capability → ¬ Unreachable config bus capability →
        Recorded identity capability now grants
          (check config bus now grants identity capability)) ∧
      (¬ Undecided config grants identity capability ∨ Unreachable config bus capability →
        (check config bus now grants identity capability).1 = grants) := by
  cases hlisted : listed config identity with
  | some capabilities =>
    have hdecided : ¬ Undecided config grants identity capability := by simp [Undecided, hlisted]
    refine ⟨?_, fun h => absurd h hdecided, fun _ => ?_⟩
    · rw [check, consult_listed hlisted, Permitted, hlisted]
      by_cases hmem : capability ∈ capabilities
      · simp [hmem]
      · simp [hmem]
    · rw [check, consult_listed hlisted]
  | none =>
    cases hlookup : grants.lookup (identity.key, capability) with
    | some grant =>
      have hdecided : ¬ Undecided config grants identity capability := by
        simp [Undecided, hlookup]
      have hconsult : consult config grants identity capability = _ := consult_unlisted hlisted
      simp only [hlookup] at hconsult
      refine ⟨?_, fun h => absurd h hdecided, fun _ => ?_⟩
      · simp only [check, hconsult, Permitted, hlisted, hlookup]
        cases grant.decision <;> simp
      · simp only [check, hconsult]
        cases grant.decision <;> rfl
    | none =>
      have hundecided : Undecided config grants identity capability := ⟨hlisted, hlookup⟩
      have hpermitted : Permitted config bus grants identity capability ↔
          Consented config bus capability := by simp only [Permitted, hlisted, hlookup]
      rw [check, consult_undecided hundecided, hpermitted]
      rcases question_answer config bus capability with
        ⟨hunreachable, reason, hanswer⟩ | ⟨hreachable, decision, via, hanswer, hallow⟩
      · have hno : ¬ Consented config bus capability := by
          obtain ⟨hby, reason', hask⟩ := hunreachable
          rintro (⟨hyes, -⟩ | ⟨hmode, hne⟩)
          · rw [hask] at hyes
            cases hyes
          · rcases hby with hadmin | hpolkit
            · exact hne hadmin
            · rw [hmode] at hpolkit
              cases hpolkit
        simp only [hanswer]
        exact ⟨by simp [hno], fun _ h => absurd hunreachable h, fun _ => trivial⟩
      · simp only [hanswer, checkResult_eq_ok]
        refine ⟨hallow, fun _ _ => ⟨decision, via, checkResult_eq_ok.symm, rfl⟩, ?_⟩
        rintro (h | h)
        · exact absurd hundecided h
        · exact absurd h hreachable

end Decisions

/-! ### Where entries come from -/

/-- One of the calls set the entry. -/
def SetBy (acts : List Act) (key : Text × Text) (grant : Grant) : Prop :=
  ∃ identity capability decision via now,
    Act.setGrant identity capability decision via now ∈ acts ∧ key = (identity, capability) ∧
      grant = ⟨identity, capability, decision, now, via⟩

/-- One of the calls was a check that no rule decided and that wrote the entry
    down. -/
def CheckedBy (config : ConsentConfig) (acts : List Act) (key : Text × Text) (grant : Grant) :
    Prop :=
  ∃ bus now identity capability decision via,
    Act.check bus now identity capability ∈ acts ∧ key = (identity.key, capability) ∧
      grant = ⟨identity.key, capability, decision, now, via⟩ ∧ listed config identity = none ∧
      ¬ Unreachable config bus capability ∧ (decision = .allow ↔ Consented config bus capability)

section Origins

variable {config : ConsentConfig} {acts acts' : List Act} {key : Text × Text} {grant : Grant}

theorem SetBy.mono (h : SetBy acts key grant) (hsub : acts ⊆ acts') : SetBy acts' key grant := by
  obtain ⟨identity, capability, decision, via, now, hmem, hkey⟩ := h
  exact ⟨identity, capability, decision, via, now, hsub hmem, hkey⟩

theorem CheckedBy.mono (h : CheckedBy config acts key grant) (hsub : acts ⊆ acts') :
    CheckedBy config acts' key grant := by
  obtain ⟨bus, now, identity, capability, decision, via, hmem, hkey⟩ := h
  exact ⟨bus, now, identity, capability, decision, via, hsub hmem, hkey⟩

theorem lookup_insert_cases {grants : GrantTable} {k : Text × Text} {g : Grant}
    (h : (grants.insert k g).lookup key = some grant) :
    (key = k ∧ grant = g) ∨ grants.lookup key = some grant := by
  by_cases hkey : key = k
  · subst hkey
    rw [AList.lookup_insert, Option.some.injEq] at h
    exact Or.inl ⟨rfl, h.symm⟩
  · rw [AList.lookup_insert_ne hkey] at h
    exact Or.inr h

/-- What one call can have put there. -/
theorem act_origin {grants : GrantTable} (a : Act)
    (h : (act config grants a).lookup key = some grant) :
    grants.lookup key = some grant ∨ SetBy [a] key grant ∨ CheckedBy config [a] key grant := by
  cases a with
  | check bus now identity capability =>
    obtain ⟨hresult, hrecorded, hkept⟩ := check_decides config bus now grants identity capability
    by_cases hasked : Undecided config grants identity capability ∧
        ¬ Unreachable config bus capability
    · obtain ⟨hundecided, hreachable⟩ := hasked
      obtain ⟨decision, via, hallow, htable⟩ := (hrecorded hundecided hreachable).one
      rw [act, htable] at h
      rcases lookup_insert_cases h with ⟨rfl, rfl⟩ | h
      · refine Or.inr (Or.inr ⟨bus, now, identity, capability, decision, via,
          List.mem_singleton_self _, rfl, rfl, hundecided.1, hreachable, ?_⟩)
        rw [hallow, hresult]
        simp only [Permitted, hundecided.1, hundecided.2]
      · exact Or.inl h
    · rw [act, hkept (by tauto)] at h
      exact Or.inl h
  | setGrant identity capability decision via now =>
    rcases lookup_insert_cases h with ⟨rfl, rfl⟩ | h
    · exact Or.inr (Or.inl ⟨identity, capability, decision, via, now, List.mem_singleton_self _,
        rfl, rfl⟩)
    · exact Or.inl h
  | revoke identity =>
    rw [act, lookup_retain] at h
    split at h
    · exact Or.inl h
    · cases h

theorem after_origin (acts : List Act) {start : GrantTable}
    (h : (after config start acts).lookup key = some grant) :
    start.lookup key = some grant ∨ SetBy acts key grant ∨ CheckedBy config acts key grant := by
  induction acts generalizing start with
  | nil => exact Or.inl h
  | cons a acts ih =>
    rcases ih h with hfirst | hset | hchecked
    · have hhead : [a] ⊆ a :: acts := List.cons_subset_cons a (List.nil_subset acts)
      rcases act_origin a hfirst with hstart | hset | hchecked
      · exact Or.inl hstart
      · exact Or.inr (Or.inl (hset.mono hhead))
      · exact Or.inr (Or.inr (hchecked.mono hhead))
    · exact Or.inr (Or.inl (hset.mono (List.subset_cons_self a acts)))
    · exact Or.inr (Or.inr (hchecked.mono (List.subset_cons_self a acts)))

/-- Only polkit can have allowed a check of model administration. -/
theorem CheckedBy.admin (h : CheckedBy config acts key grant) (hkey : key.2 = capModelAdmin)
    (hallow : grant.decision = .allow) :
    ∃ bus now identity, Act.check bus now identity capModelAdmin ∈ acts ∧
      key = (identity.key, capModelAdmin) ∧ askPolkit bus (actionOf capModelAdmin) = .ok true := by
  obtain ⟨bus, now, identity, capability, decision, via, hmem, rfl, rfl, -, -, hconsented⟩ := h
  obtain rfl : capability = capModelAdmin := hkey
  rcases hconsented.mp hallow with ⟨hyes, -⟩ | ⟨-, hne⟩
  · exact ⟨bus, now, identity, hmem, rfl, hyes⟩
  · exact absurd rfl hne

end Origins

/-- **Consent over whole runs.** After any calls a check is answered by the
    configured list, else by what is remembered, else by consent; only a
    decision by consent is written down, as the one entry it decides, and not
    when nobody could be asked.  Every entry was there from the start, was set,
    or was decided by consent, and one that allows model administration by
    polkit. -/
theorem consent_decisions (config : ConsentConfig) (start : GrantTable) (acts : List Act) :
    (∀ bus now identity capability,
      ((check config bus now (after config start acts) identity capability).2 = .ok () ↔
        Permitted config bus (after config start acts) identity capability) ∧
      (Undecided config (after config start acts) identity capability →
        ¬ Unreachable config bus capability →
          Recorded identity capability now (after config start acts)
            (check config bus now (after config start acts) identity capability)) ∧
      (¬ Undecided config (after config start acts) identity capability ∨
          Unreachable config bus capability →
        (check config bus now (after config start acts) identity capability).1 =
          after config start acts)) ∧
    (∀ key grant, (after config start acts).lookup key = some grant →
      start.lookup key = some grant ∨ SetBy acts key grant ∨ CheckedBy config acts key grant) ∧
    ∀ key grant, (after config start acts).lookup key = some grant → key.2 = capModelAdmin →
      grant.decision = .allow →
        start.lookup key = some grant ∨ SetBy acts key grant ∨
          ∃ bus now identity, Act.check bus now identity capModelAdmin ∈ acts ∧
            key = (identity.key, capModelAdmin) ∧
            askPolkit bus (actionOf capModelAdmin) = .ok true := by
  refine ⟨?_, ?_, ?_⟩
  · intro bus now identity capability
    exact check_decides config bus now (after config start acts) identity capability
  · intro key grant h
    exact after_origin acts h
  · intro key grant h hkey hallow
    rcases after_origin acts h with hstart | hset | hchecked
    · exact Or.inl hstart
    · exact Or.inr (Or.inl hset)
    · exact Or.inr (Or.inr (hchecked.admin hkey hallow))

/-- An authority that permits everything, asked about model administration. -/
def administer : List Act := [.check (some fun _ _ => .ok (true, false)) 1 editor capModelAdmin]

def adminGrant : Grant := ⟨editor.key, capModelAdmin, .allow, 1, "polkit".toList⟩

/-- The consent mode allows everything else, and polkit allowed this. -/
theorem administration_allowed :
    (∅ : GrantTable).lookup (editor.key, capModelAdmin) = some adminGrant ∨
      SetBy administer (editor.key, capModelAdmin) adminGrant ∨
      ∃ bus now identity, Act.check bus now identity capModelAdmin ∈ administer ∧
        (editor.key, capModelAdmin) = (identity.key, capModelAdmin) ∧
        askPolkit bus (actionOf capModelAdmin) = .ok true :=
  (consent_decisions ⟨.allow, []⟩ ∅ administer).2.2 _ adminGrant rfl rfl rfl

end AiDaemon.Grants
