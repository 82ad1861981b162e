import AiDaemon.Identity
import Mathlib.Data.List.Forall2

/-!
# What a cgroup component names

`normaliseUnit` is a cascade of strips.  `UnitNames` says what it is for, one
clause per shape of component: a service names itself, a transient scope names
what is left once its launcher and its launch token are off, and a session
manager, a login session or a terminal tab names nothing.  The two agree on
every string (`normaliseUnit_eq_some`), so a question about what a user can make
the daemon read is a question about shapes.
-/

namespace AiDaemon.Identity

/-- `base` is what is left of `body`: what `Off` takes away when it applies,
    and all of it when it does not. -/
def Trims (Off : Text → Text → Prop) (body base : Text) : Prop :=
  Off body base ∨ (base = body ∧ ∀ rest, ¬ Off body rest)

/-- `body` is `base` and a launch token. -/
def TokenOff (body base : Text) : Prop :=
  ∃ token, isLaunchToken token = true ∧ body = base ++ '-' :: token

/-- `body` is a launcher and the dotted application id `base`. -/
def LauncherOff (body base : Text) : Prop :=
  ∃ launcher : Text, '-' ∉ launcher ∧ '.' ∉ launcher ∧ '.' ∈ base ∧ body = launcher ++ '-' :: base

/-- The dash-separated groups are hex digits, 8-4-4-4-12 of them. -/
def IsUuid (uuid : Text) : Prop :=
  List.Forall₂ (fun part width => isUuidGroup part width = true) (uuid.splitOn '-') uuidGroups

def UuidOff (body base : Text) : Prop := ∃ uuid, IsUuid uuid ∧ body = base ++ '-' :: uuid

/-- A scope that stands for a terminal tab, a login session or the init scope. -/
def Unnamed (name : Text) : Prop :=
  "vte-spawn-".toList <+: name ∨ "session-".toList <+: name ∨ name = "init".toList

/-- The unit a transient scope `name.scope` stands for. -/
inductive ScopeNames (name : Text) : Text → Prop where
  | snap {unit : Text} (named : ¬ Unnamed name) (shape : "snap.".toList <+: name)
      (base : Trims UuidOff name unit) : ScopeNames name unit
  | airun {body unit : Text} (shape : name = "app-airun-".toList ++ body)
      (base : Trims TokenOff body unit) : ScopeNames name unit
  | app {body launched unit : Text} (shape : name = "app-".toList ++ body)
      (other : ¬ "airun-".toList <+: body) (token : Trims TokenOff body launched)
      (base : Trims LauncherOff launched unit) : ScopeNames name unit
  | verbatim (named : ¬ Unnamed name) (notSnap : ¬ "snap.".toList <+: name)
      (notApp : ¬ "app-".toList <+: name) : ScopeNames name (name ++ ".scope".toList)

/-- The unit one component of a cgroup path stands for. -/
inductive UnitNames (component : Text) : Text → Prop where
  | service {name : Text} (shape : component = name ++ ".service".toList)
      (notManager : ¬ "user@".toList <+: name) : UnitNames component component
  | scope {name unit : Text} (shape : component = name ++ ".scope".toList)
      (named : ScopeNames name unit) : UnitNames component unit

/-- What follows the last colon of a line. -/
def PathOf (line path : Text) : Prop :=
  ':' ∉ path ∧ (path = line ∨ ∃ fields, line = fields ++ ':' :: path)

/-- The innermost component of a line's path that names anything names `unit`. -/
def LineNames (line unit : Text) : Prop :=
  ∃ (path : Text) (outer : List Text) (component : Text) (inner : List Text), PathOf line path ∧
    path.splitOn '/' = outer ++ component :: inner ∧
    UnitNames component unit ∧ ∀ c ∈ inner, ∀ u, ¬ UnitNames c u

/-- The first line of a cgroup file that names anything names `unit`. -/
def CgroupNames (text unit : Text) : Prop :=
  ∃ (before : List Text) (line : Text) (after : List Text),
    text.lines = before ++ line :: after ∧
    LineNames line unit ∧ ∀ l ∈ before, ∀ u, ¬ LineNames l u

/-! ### Each strip is its relation -/

section Trims

variable {Off : Text → Text → Prop} {body a b : Text}

theorem Trims.unique (hunique : ∀ {x y}, Off body x → Off body y → x = y) (ha : Trims Off body a)
    (hb : Trims Off body b) : a = b := by
  rcases ha with ha | ⟨rfl, hna⟩
  · rcases hb with hb | ⟨rfl, hnb⟩
    · exact hunique ha hb
    · exact absurd ha (hnb a)
  · rcases hb with hb | ⟨rfl, -⟩
    · exact absurd hb (hna b)
    · rfl

/-- A text that is what is left is the only one. -/
theorem Trims.eq_iff (hunique : ∀ {x y}, Off body x → Off body y → x = y)
    (ha : Trims Off body a) : a = b ↔ Trims Off body b := by
  constructor
  · rintro rfl
    exact ha
  · exact fun hb => ha.unique hunique hb

end Trims

theorem dash_not_mem_of_hex {part : Text} (h : part.all Text.isHexDigit = true) : '-' ∉ part := by
  intro hmem
  have hdash := List.all_eq_true.mp h '-' hmem
  revert hdash
  decide

theorem dash_not_mem_of_token {token : Text} (h : isLaunchToken token = true) : '-' ∉ token := by
  simp only [isLaunchToken, Bool.and_eq_true, Bool.or_eq_true] at h
  rcases h.2 with hdigits | ⟨-, hhex⟩
  · intro hmem
    have hdash := List.all_eq_true.mp hdigits '-' hmem
    revert hdash
    decide
  · exact dash_not_mem_of_hex hhex

theorem splitOn_joinDash {parts : List Text} (hne : parts ≠ []) (hdash : ∀ p ∈ parts, '-' ∉ p) :
    (joinDash parts).splitOn '-' = parts :=
  List.splitOn_intercalate '-' hdash hne

theorem joinDash_splitOn (body : Text) : joinDash (body.splitOn '-') = body :=
  List.intercalate_splitOn '-'

theorem eq_of_splitOn {a b : Text} (h : a.splitOn '-' = b.splitOn '-') : a = b := by
  rw [← joinDash_splitOn a, h, joinDash_splitOn]

theorem joinDash_append {l r : List Text} (hl : l ≠ []) (hr : r ≠ []) :
    joinDash (l ++ r) = joinDash l ++ '-' :: joinDash r :=
  Text.intercalate_append hl hr

@[simp] theorem joinDash_singleton (part : Text) : joinDash [part] = part :=
  List.intercalate_singleton

theorem TokenOff.unique {body a b : Text} (ha : TokenOff body a) (hb : TokenOff body b) :
    a = b := by
  obtain ⟨s, hs, rfl⟩ := ha
  obtain ⟨t, ht, heq⟩ := hb
  have hsplit := congrArg (List.splitOn '-') heq
  rw [Text.splitOn_append_sep (dash_not_mem_of_token hs),
    Text.splitOn_append_sep (dash_not_mem_of_token ht)] at hsplit
  have hparts := (List.append_inj' hsplit rfl).1
  exact eq_of_splitOn hparts

/-- Popping the token leaves the parts of the text without it. -/
theorem popLaunchToken_trims (body : Text) :
    ∃ base, Trims TokenOff body base ∧
      popLaunchToken (body.splitOn '-') = base.splitOn '-' := by
  by_cases hoff : ∃ base, TokenOff body base
  · obtain ⟨base, token, htoken, rfl⟩ := hoff
    refine ⟨base, Or.inl ⟨token, htoken, rfl⟩, ?_⟩
    rw [Text.splitOn_append_sep (dash_not_mem_of_token htoken)]
    have hpos := List.length_pos_of_ne_nil (List.splitOn_ne_nil '-' base)
    have hlen : 1 < (base.splitOn '-' ++ [token]).length := by
      rw [List.length_append, List.length_singleton]
      omega
    have hlast : (base.splitOn '-' ++ [token]).getLast?.any isLaunchToken = true := by
      simp [htoken]
    rw [popLaunchToken, if_pos ⟨hlen, hlast⟩, List.dropLast_concat]
  · refine ⟨body, Or.inr ⟨rfl, fun rest hrest => hoff ⟨rest, hrest⟩⟩, ?_⟩
    rw [popLaunchToken, if_neg]
    rintro ⟨hlen, hlast⟩
    obtain ⟨token, htoken, hlaunch⟩ := (Option.any_eq_true _ _).mp hlast
    -- the last part would be a token with something before it
    have hparts : body.splitOn '-' = (body.splitOn '-').dropLast ++ [token] :=
      (List.dropLast_append_getLast? token htoken).symm
    have hinit : (body.splitOn '-').dropLast ≠ [] := by
      intro hnil
      rw [hnil, List.nil_append] at hparts
      rw [hparts] at hlen
      simp at hlen
    apply hoff
    refine ⟨joinDash (body.splitOn '-').dropLast, token, hlaunch, ?_⟩
    have hjoin := joinDash_append hinit (List.cons_ne_nil token [])
    rw [← hparts, joinDash_splitOn, joinDash_singleton] at hjoin
    exact hjoin

theorem joinDash_popLaunchToken_eq {body base : Text} :
    joinDash (popLaunchToken (body.splitOn '-')) = base ↔ Trims TokenOff body base := by
  obtain ⟨base', htrims, hparts⟩ := popLaunchToken_trims body
  rw [hparts, joinDash_splitOn]
  exact htrims.eq_iff TokenOff.unique

theorem LauncherOff.splitOn {body base : Text} (h : LauncherOff body base) :
    ∃ launcher : Text, '.' ∉ launcher ∧ '.' ∈ base ∧
      body.splitOn '-' = launcher :: base.splitOn '-' := by
  obtain ⟨launcher, hdash, hdot, hbase, rfl⟩ := h
  exact ⟨launcher, hdot, hbase, List.splitOn_append_cons_self_of_not_mem hdash base⟩

theorem LauncherOff.unique {body a b : Text} (ha : LauncherOff body a) (hb : LauncherOff body b) :
    a = b := by
  obtain ⟨_, -, -, hsplit⟩ := ha.splitOn
  obtain ⟨_, -, -, hsplit'⟩ := hb.splitOn
  rw [hsplit] at hsplit'
  have hparts := (List.cons.inj hsplit').2
  exact eq_of_splitOn hparts

theorem removeLauncher_trims (body : Text) :
    Trims LauncherOff body (joinDash (removeLauncher (body.splitOn '-'))) := by
  cases hsplit : body.splitOn '-' with
  | nil => exact absurd hsplit (List.splitOn_ne_nil _ _)
  | cons first parts =>
    have hjoin := joinDash_splitOn body
    rw [hsplit] at hjoin
    cases parts with
    | nil =>
      refine Or.inr ⟨hjoin, ?_⟩
      intro rest hoff
      obtain ⟨_, -, -, hparts⟩ := hoff.splitOn
      rw [hsplit] at hparts
      exact List.splitOn_ne_nil _ _ (List.cons.inj hparts).2.symm
    | cons second rest =>
      have hdashes : ∀ p ∈ second :: rest, '-' ∉ p := fun p hp =>
        Text.not_mem_of_mem_splitOn (hsplit ▸ List.mem_cons_of_mem first hp)
      have hdots : ('.' ∈ joinDash (second :: rest)) ↔
          (second :: rest).any (fun part => part.contains '.') = true := by
        have hsep : '.' ≠ '-' := by decide
        rw [Text.mem_iff_splitOn hsep,
          splitOn_joinDash (List.cons_ne_nil _ _) hdashes, List.any_eq_true]
        simp only [List.contains_iff_mem]
      by_cases hcond : first.contains '.' = false ∧
          (second :: rest).any (fun part => part.contains '.')
      · rw [removeLauncher, if_pos hcond]
        refine Or.inl ⟨first, ?_, by simpa using hcond.1, hdots.mpr hcond.2, ?_⟩
        · exact Text.not_mem_of_mem_splitOn (hsplit ▸ List.mem_cons_self)
        · have happend := joinDash_append (List.cons_ne_nil first []) (List.cons_ne_nil second rest)
          rw [List.singleton_append, hjoin, joinDash_singleton] at happend
          exact happend
      · rw [removeLauncher, if_neg hcond]
        refine Or.inr ⟨hjoin, ?_⟩
        intro base hoff
        obtain ⟨launcher, hdot, hbase, hparts⟩ := hoff.splitOn
        rw [hsplit] at hparts
        obtain ⟨rfl, htail⟩ := List.cons.inj hparts
        apply hcond
        refine ⟨by simpa using hdot, hdots.mp ?_⟩
        rw [htail, joinDash_splitOn]
        exact hbase

theorem joinDash_removeLauncher_eq {body base : Text} :
    joinDash (removeLauncher (body.splitOn '-')) = base ↔ Trims LauncherOff body base :=
  (removeLauncher_trims body).eq_iff LauncherOff.unique

theorem byteLen_of_hex {part : Text} (h : part.all Text.isHexDigit = true) :
    Text.byteLen part = part.length := by
  induction part with
  | nil => rfl
  | cons c cs ih =>
    simp only [List.all_cons, Bool.and_eq_true] at h
    have hsize : c.utf8Size = 1 := by
      have hle : c.val ≤ 0x7f := by
        have hc := h.1
        simp only [Text.isHexDigit, Char.isDigit, Bool.or_eq_true, Bool.and_eq_true,
          decide_eq_true_eq, Char.le_def, UInt32.le_iff_toNat_le] at hc ⊢
        change (48 ≤ c.val.toNat ∧ c.val.toNat ≤ 57 ∨ 97 ≤ c.val.toNat ∧ c.val.toNat ≤ 102) ∨
          65 ≤ c.val.toNat ∧ c.val.toNat ≤ 70 at hc
        change c.val.toNat ≤ 127
        omega
      simp [Char.utf8Size, hle]
    have htail := ih h.2
    simp only [Text.byteLen] at htail ⊢
    rw [List.map_cons, List.sum_cons, htail, hsize, List.length_cons]
    omega

theorem IsUuid.length {uuid : Text} (h : IsUuid uuid) : uuid.length = 36 := by
  have hwidth : ∀ part width, isUuidGroup part width = true → part.length = width := by
    intro part width hpart
    simp only [isUuidGroup, Bool.and_eq_true, decide_eq_true_eq] at hpart
    rw [← hpart.1, byteLen_of_hex hpart.2]
  have hjoin := joinDash_splitOn uuid
  unfold IsUuid at h
  generalize uuid.splitOn '-' = parts at h hjoin
  simp only [uuidGroups] at h
  obtain _ | ⟨h1, _ | ⟨h2, _ | ⟨h3, _ | ⟨h4, _ | ⟨h5, _ | _⟩⟩⟩⟩⟩ := h
  rw [← hjoin]
  simp [joinDash, List.intercalate_cons_cons, hwidth _ _ h1, hwidth _ _ h2, hwidth _ _ h3,
    hwidth _ _ h4, hwidth _ _ h5]

theorem UuidOff.splitOn {body base : Text} (h : UuidOff body base) :
    ∃ groups : List Text, List.Forall₂ (fun part width => isUuidGroup part width = true) groups
        uuidGroups ∧ body.splitOn '-' = base.splitOn '-' ++ groups := by
  obtain ⟨uuid, huuid, rfl⟩ := h
  exact ⟨uuid.splitOn '-', huuid, List.splitOn_append_cons_self base uuid⟩

theorem UuidOff.unique {body a b : Text} (ha : UuidOff body a) (hb : UuidOff body b) :
    a = b := by
  obtain ⟨_, hgroups, hsplit⟩ := ha.splitOn
  obtain ⟨_, hgroups', hsplit'⟩ := hb.splitOn
  rw [hsplit] at hsplit'
  have hparts := (List.append_inj' hsplit' (hgroups.length_eq.trans hgroups'.length_eq.symm)).1
  exact eq_of_splitOn hparts

theorem stripLaunchUuid_of_off {name base : Text} (h : UuidOff name base) :
    stripLaunchUuid name = some base := by
  obtain ⟨groups, hgroups, hsplit⟩ := h.splitOn
  have hpos := List.length_pos_of_ne_nil (List.splitOn_ne_nil '-' base)
  have hlen := hgroups.length_eq
  have hlong : ¬ (name.splitOn '-').length ≤ uuidGroups.length := by
    rw [hsplit, List.length_append]
    omega
  have htail : (name.splitOn '-').drop ((name.splitOn '-').length - uuidGroups.length) =
      groups := by
    rw [hsplit, List.length_append, ← hlen, Nat.add_sub_cancel]
    exact List.drop_left
  have hall : (groups.zip uuidGroups).all (fun (part, width) => isUuidGroup part width) = true := by
    rw [List.all_eq_true]
    rintro ⟨part, width⟩ hmem
    exact (List.forall₂_iff_zip.mp hgroups).2 hmem
  have hcut : name.take (name.length - (uuidGroups.sum + uuidGroups.length)) = base := by
    obtain ⟨uuid, huuid, rfl⟩ := h
    have hcount : (base ++ '-' :: uuid).length - (uuidGroups.sum + uuidGroups.length) =
        base.length := by
      simp only [List.length_append, List.length_cons, huuid.length]
      exact Nat.add_sub_cancel (n := base.length) (m := 37)
    rw [hcount, List.take_left]
  simp only [stripLaunchUuid, if_neg hlong, htail, hall, if_true, hcut]

theorem off_of_stripLaunchUuid {name base : Text} (h : stripLaunchUuid name = some base) :
    ∃ rest, UuidOff name rest := by
  simp only [stripLaunchUuid] at h
  split at h
  · cases h
  · rename_i hlong
    split at h
    · rename_i hall
      generalize hparts : name.splitOn '-' = parts at hlong hall
      have htail : List.Forall₂ (fun part width => isUuidGroup part width = true)
          (parts.drop (parts.length - uuidGroups.length)) uuidGroups := by
        rw [List.forall₂_iff_zip]
        constructor
        · rw [List.length_drop]
          omega
        · intro part width hmem
          exact List.all_eq_true.mp hall (part, width) hmem
      have hdashes : ∀ p ∈ parts, '-' ∉ p := fun p hp =>
        Text.not_mem_of_mem_splitOn (hparts ▸ hp)
      have htailne : parts.drop (parts.length - uuidGroups.length) ≠ [] := by
        intro hnil
        rw [hnil] at htail
        cases htail
      have hinitne : parts.take (parts.length - uuidGroups.length) ≠ [] := by
        intro hnil
        have hzero := congrArg List.length hnil
        rw [List.length_take, List.length_nil] at hzero
        omega
      refine ⟨joinDash (parts.take (parts.length - uuidGroups.length)),
        joinDash (parts.drop (parts.length - uuidGroups.length)), ?_, ?_⟩
      · unfold IsUuid
        rw [splitOn_joinDash htailne fun p hp => hdashes p (List.mem_of_mem_drop hp)]
        exact htail
      · have hjoin := joinDash_append hinitne htailne
        rw [List.take_append_drop, ← hparts, joinDash_splitOn, hparts] at hjoin
        exact hjoin
    · cases h

theorem stripLaunchUuid_eq {name base : Text} :
    (stripLaunchUuid name).getD name = base ↔ Trims UuidOff name base := by
  have htrims : Trims UuidOff name ((stripLaunchUuid name).getD name) := by
    by_cases hoff : ∃ rest, UuidOff name rest
    · obtain ⟨rest, hrest⟩ := hoff
      rw [stripLaunchUuid_of_off hrest]
      exact Or.inl hrest
    · have hnone : stripLaunchUuid name = none := by
        rw [Option.eq_none_iff_forall_ne_some]
        intro base' hsome
        exact hoff (off_of_stripLaunchUuid hsome)
      rw [hnone]
      exact Or.inr ⟨rfl, fun rest hrest => hoff ⟨rest, hrest⟩⟩
  exact htrims.eq_iff UuidOff.unique

/-! ### The cascade is the relation -/

theorem service_ne_scope {name name' : Text} :
    name ++ ".service".toList ≠ name' ++ ".scope".toList := by
  intro h
  have hreverse := congrArg List.reverse h
  simp at hreverse

theorem app_not_unnamed (body : Text) : ¬ Unnamed ("app-".toList ++ body) := by
  rintro (⟨t, h⟩ | ⟨t, h⟩ | h) <;> simp at h

theorem app_not_snap (body : Text) : ¬ "snap.".toList <+: "app-".toList ++ body := by
  rintro ⟨t, h⟩
  simp at h

theorem normaliseUnit_scope_eq (name : Text) :
    normaliseUnit (name ++ ".scope".toList) = normaliseScope (name ++ ".scope".toList) name := by
  have hservice : ".service".toList.isSuffixOf? (name ++ ".scope".toList) = none := by
    rw [Text.isSuffixOf?_eq_none]
    rintro ⟨rest, hrest⟩
    exact service_ne_scope hrest
  have hscope : ".scope".toList.isSuffixOf? (name ++ ".scope".toList) = some name := by
    rw [List.isSuffixOf?_eq_some_iff_append_eq]
  simp only [normaliseUnit, hservice, hscope, Option.bind_some]

theorem normaliseScope_unnamed {component name : Text} (h : Unnamed name) :
    normaliseScope component name = none := by
  simp only [Unnamed, ← List.isPrefixOf_iff_prefix] at h
  rw [normaliseScope, if_pos h]

theorem normaliseScope_snap {component name : Text} (h : ¬ Unnamed name)
    (hsnap : "snap.".toList <+: name) :
    normaliseScope component name = some ((stripLaunchUuid name).getD name) := by
  simp only [Unnamed, ← List.isPrefixOf_iff_prefix] at h
  rw [normaliseScope, if_neg h, if_pos (List.isPrefixOf_iff_prefix.mpr hsnap)]

theorem normaliseScope_other {component name : Text} (h : ¬ Unnamed name)
    (hsnap : ¬ "snap.".toList <+: name) :
    normaliseScope component name =
      match "app-airun-".toList.isPrefixOf? name with
      | some body => some (joinDash (popLaunchToken (body.splitOn '-')))
      | none =>
        match "app-".toList.isPrefixOf? name with
        | none => some component
        | some body =>
          let parts := removeLauncher (popLaunchToken (body.splitOn '-'))
          if parts = [] then some component else some (joinDash parts) := by
  simp only [Unnamed, ← List.isPrefixOf_iff_prefix] at h
  have hsnap' : ¬ "snap.".toList.isPrefixOf name = true := by rwa [List.isPrefixOf_iff_prefix]
  exact (if_neg h).trans (if_neg hsnap')

theorem normaliseScope_airun (component body : Text) :
    normaliseScope component ("app-airun-".toList ++ body) =
      some (joinDash (popLaunchToken (body.splitOn '-'))) := by
  have hbody : "app-airun-".toList ++ body = "app-".toList ++ ("airun-".toList ++ body) := rfl
  have hstrip : "app-airun-".toList.isPrefixOf? ("app-airun-".toList ++ body) = some body := by
    rw [List.isPrefixOf?_eq_some_iff_append_eq]
  rw [normaliseScope_other (hbody ▸ app_not_unnamed _) (hbody ▸ app_not_snap _), hstrip]

theorem removeLauncher_ne_nil {parts : List Text} (h : parts ≠ []) : removeLauncher parts ≠ [] := by
  unfold removeLauncher
  split
  · split <;> simp
  · exact h

/-- The parts are never empty, so the source's last fallback is not taken. -/
theorem normaliseScope_app {component body launched : Text} (hother : ¬ "airun-".toList <+: body)
    (htoken : Trims TokenOff body launched) :
    normaliseScope component ("app-".toList ++ body) =
      some (joinDash (removeLauncher (launched.splitOn '-'))) := by
  have hairun : "app-airun-".toList.isPrefixOf? ("app-".toList ++ body) = none := by
    rw [Text.isPrefixOf?_eq_none]
    rintro ⟨rest, hrest⟩
    exact hother ⟨rest, by simpa using hrest⟩
  have happ : "app-".toList.isPrefixOf? ("app-".toList ++ body) = some body := by
    rw [List.isPrefixOf?_eq_some_iff_append_eq]
  have hparts : popLaunchToken (body.splitOn '-') = launched.splitOn '-' := by
    obtain ⟨base, htrims, hpop⟩ := popLaunchToken_trims body
    rw [hpop, htrims.unique TokenOff.unique htoken]
  have hne := removeLauncher_ne_nil (List.splitOn_ne_nil '-' launched)
  rw [normaliseScope_other (app_not_unnamed body) (app_not_snap body), hairun, happ]
  simp only [hparts, if_neg hne]

theorem normaliseScope_verbatim {component name : Text} (h : ¬ Unnamed name)
    (hsnap : ¬ "snap.".toList <+: name) (happ : ¬ "app-".toList <+: name) :
    normaliseScope component name = some component := by
  have hairun : "app-airun-".toList.isPrefixOf? name = none := by
    rw [Text.isPrefixOf?_eq_none]
    rintro ⟨rest, hrest⟩
    exact happ ⟨"airun-".toList ++ rest, hrest⟩
  rw [normaliseScope_other h hsnap, hairun, Text.isPrefixOf?_eq_none.mpr happ]

theorem normaliseUnit_scope {name unit : Text} :
    normaliseUnit (name ++ ".scope".toList) = some unit ↔ ScopeNames name unit := by
  rw [normaliseUnit_scope_eq]
  constructor
  · intro h
    by_cases hunnamed : Unnamed name
    · rw [normaliseScope_unnamed hunnamed] at h
      cases h
    by_cases hsnap : "snap.".toList <+: name
    · rw [normaliseScope_snap hunnamed hsnap, Option.some.injEq] at h
      exact .snap hunnamed hsnap (stripLaunchUuid_eq.mp h)
    by_cases happ : "app-".toList <+: name
    · obtain ⟨body, rfl⟩ := happ
      by_cases hairun : "airun-".toList <+: body
      · obtain ⟨rest, rfl⟩ := hairun
        rw [show "app-".toList ++ ("airun-".toList ++ rest) = "app-airun-".toList ++ rest from rfl,
          normaliseScope_airun, Option.some.injEq] at h
        exact .airun rfl (joinDash_popLaunchToken_eq.mp h)
      · obtain ⟨launched, htoken, -⟩ := popLaunchToken_trims body
        rw [normaliseScope_app hairun htoken, Option.some.injEq] at h
        exact .app rfl hairun htoken (joinDash_removeLauncher_eq.mp h)
    · rw [normaliseScope_verbatim hunnamed hsnap happ, Option.some.injEq] at h
      subst h
      exact .verbatim hunnamed hsnap happ
  · intro h
    cases h with
    | snap named shape base => rw [normaliseScope_snap named shape, stripLaunchUuid_eq.mpr base]
    | airun shape base =>
      rw [shape, normaliseScope_airun, joinDash_popLaunchToken_eq.mpr base]
    | app shape other token base =>
      rw [shape, normaliseScope_app other token, joinDash_removeLauncher_eq.mpr base]
    | verbatim named notSnap notApp => exact normaliseScope_verbatim named notSnap notApp

/-- **What a component names** is what `normalise_unit` returns for it. -/
theorem normaliseUnit_eq_some {component unit : Text} :
    normaliseUnit component = some unit ↔ UnitNames component unit := by
  constructor
  · intro h
    cases hservice : ".service".toList.isSuffixOf? component with
    | some name =>
      simp only [normaliseUnit, hservice] at h
      rw [List.isSuffixOf?_eq_some_iff_append_eq] at hservice
      split at h
      · cases h
      · rename_i hmanager
        cases h
        exact .service hservice.symm (by rwa [List.isPrefixOf_iff_prefix] at hmanager)
    | none =>
      have hscope := h
      simp only [normaliseUnit, hservice, Option.bind_eq_some_iff] at hscope
      obtain ⟨name, hname, -⟩ := hscope
      rw [List.isSuffixOf?_eq_some_iff_append_eq] at hname
      subst hname
      exact .scope rfl (normaliseUnit_scope.mp h)
  · intro h
    cases h with
    | @service name shape notManager =>
      have hservice : ".service".toList.isSuffixOf? component = some name := by
        rw [List.isSuffixOf?_eq_some_iff_append_eq]
        exact shape.symm
      simp only [normaliseUnit, hservice, List.isPrefixOf_iff_prefix, if_neg notManager]
    | scope shape named =>
      rw [shape]
      exact normaliseUnit_scope.mpr named

theorem normaliseUnit_eq_none {component : Text} :
    normaliseUnit component = none ↔ ∀ unit, ¬ UnitNames component unit := by
  rw [Option.eq_none_iff_forall_ne_some]
  simp only [ne_eq, normaliseUnit_eq_some]

theorem cgroupPath_pathOf (line : Text) : PathOf line (cgroupPath line) := by
  -- a path without a colon that follows one is what follows the last one
  have hcolon : ∀ path : Text, (path = line ∨ ∃ fields, line = fields ++ ':' :: path) →
      PathOf line (((Text.rsplitOnce [':'] path).map Prod.snd).getD path) := by
    intro path hpath
    cases hsplit : Text.rsplitOnce [':'] path with
    | none => exact ⟨Text.rsplitOnce_char_eq_none.mp hsplit, hpath⟩
    | some cut =>
      obtain ⟨heq, hlast⟩ := Text.rsplitOnce_char_eq_some hsplit
      refine ⟨hlast, Or.inr ?_⟩
      rcases hpath with rfl | ⟨fields, rfl⟩
      · exact ⟨cut.1, heq⟩
      · exact ⟨fields ++ ':' :: cut.1, by rw [heq]; simp⟩
  unfold cgroupPath
  cases hsplit : Text.rsplitOnce "::".toList line with
  | none => exact hcolon line (Or.inl rfl)
  | some cut =>
    apply hcolon
    refine Or.inr ⟨cut.1 ++ [':'], ?_⟩
    rw [Text.rsplitOnce_eq_some hsplit]
    simp

theorem PathOf.unique {line a b : Text} (ha : PathOf line a) (hb : PathOf line b) : a = b := by
  have hlast : ∀ {path : Text}, PathOf line path → (line.splitOn ':').getLast? = some path := by
    rintro path ⟨hcolon, rfl | ⟨fields, rfl⟩⟩
    · rw [List.splitOn_eq_singleton hcolon]
      rfl
    · rw [Text.splitOn_append_sep hcolon]
      exact List.getLast?_concat
  have hsame := (hlast ha).symm.trans (hlast hb)
  exact Option.some.inj hsame

theorem lineUnit_eq_some {line unit : Text} :
    ((cgroupPath line).splitOn '/').reverse.findSome? normaliseUnit = some unit ↔
      LineNames line unit := by
  rw [List.findSome?_eq_some_iff]
  constructor
  · rintro ⟨inner, component, outer, hsplit, hname, hinner⟩
    refine ⟨cgroupPath line, outer.reverse, component, inner.reverse, cgroupPath_pathOf line, ?_,
      normaliseUnit_eq_some.mp hname, ?_⟩
    · have hreverse := congrArg List.reverse hsplit
      simpa using hreverse
    · intro c hc
      exact normaliseUnit_eq_none.mp (hinner c (List.mem_reverse.mp hc))
  · rintro ⟨path, outer, component, inner, hpath, hsplit, hname, hinner⟩
    have hsame := hpath.unique (cgroupPath_pathOf line)
    subst hsame
    refine ⟨inner.reverse, component, outer.reverse, ?_, normaliseUnit_eq_some.mpr hname, ?_⟩
    · rw [hsplit]
      simp
    · intro c hc
      exact normaliseUnit_eq_none.mpr (hinner c (List.mem_reverse.mp hc))

/-- **What a cgroup file names** is what `unit_from_cgroup` returns for it. -/
theorem unitFromCgroup_eq_some {text unit : Text} :
    unitFromCgroup text = some unit ↔ CgroupNames text unit := by
  have hnone : ∀ line : Text,
      ((cgroupPath line).splitOn '/').reverse.findSome? normaliseUnit = none ↔
        ∀ u, ¬ LineNames line u := by
    intro line
    rw [Option.eq_none_iff_forall_ne_some]
    simp only [ne_eq, lineUnit_eq_some]
  rw [unitFromCgroup, List.findSome?_eq_some_iff]
  simp only [lineUnit_eq_some, hnone, CgroupNames]

end AiDaemon.Identity
