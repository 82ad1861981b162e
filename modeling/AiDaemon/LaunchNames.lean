import AiDaemon.UnitNames

/-!
# Launches of one application (`identity.rs`: `normalise_unit`; `ai-run`: `--as`)

A desktop puts a launcher before an application id and a launch token after it,
snapd a uuid, `ai-run` a pid.  All of it comes off, and nothing else does, so the
launches of one application have one name and no two applications share it.
-/

namespace AiDaemon.Identity

/-! ### The source -/

/-- What `ai-run --as` takes for a name: its bytes are ASCII letters and digits,
    dashes, dots and underscores. -/
def acceptsName (name : Text) : Bool :=
  name ≠ [] && name.all fun c => c.isAlphanum || c = '-' || c = '.' || c = '_'

/-- The scope `ai-run` asks for. -/
def airunUnit (name : Text) (pid : UInt32) : Text :=
  "app-airun-".toList ++ name ++ '-' :: Text.ofNat pid.toNat

/-! ### Names of launches -/

def scope (name : Text) : Text := name ++ ".scope".toList

/-- `app-<launcher>-<id>-<token>`. -/
def launchedBy (launcher id token : Text) : Text :=
  "app-".toList ++ launcher ++ '-' :: (id ++ '-' :: token)

/-- `app-<id>-<token>`. -/
def launched (id token : Text) : Text := "app-".toList ++ id ++ '-' :: token

/-- `snap.<x>`. -/
def snap (x : Text) : Text := "snap.".toList ++ x

/-- The first of its dash-separated segments contains a dot. -/
def Dotted (id : Text) : Prop := ∃ first rest, id.splitOn '-' = first :: rest ∧ '.' ∈ first

/-- The unit a launch of the application `id` runs in. -/
inductive LaunchOf (id : Text) : Text → Prop where
  | plain {token : Text} (htoken : isLaunchToken token = true) :
      LaunchOf id (scope (launched id token))
  | launcher {launcher token : Text} (hdot : '.' ∉ launcher) (hdash : '-' ∉ launcher)
      (htoken : isLaunchToken token = true) : LaunchOf id (scope (launchedBy launcher id token))

theorem Dotted.mem {id : Text} (h : Dotted id) : '.' ∈ id := by
  obtain ⟨first, rest, hsplit, hdot⟩ := h
  have hdash : '.' ≠ '-' := by decide
  rw [Text.mem_iff_splitOn hdash]
  exact ⟨first, hsplit ▸ List.mem_cons_self, hdot⟩

/-- Nothing before a dash in a dotted id is a launcher. -/
theorem Dotted.not_launcherOff {id : Text} (h : Dotted id) (rest : Text) : ¬ LauncherOff id rest := by
  intro hoff
  obtain ⟨first, segments, hsplit, hdot⟩ := h
  obtain ⟨launcher, hlauncher, -, hparts⟩ := hoff.splitOn
  rw [hsplit] at hparts
  rw [(List.cons.inj hparts).1] at hdot
  exact hlauncher hdot

theorem Dotted.not_airun {id : Text} (h : Dotted id) (token : Text) :
    ¬ "airun-".toList <+: id ++ '-' :: token := by
  rintro ⟨rest, hrest⟩
  obtain ⟨first, segments, hsplit, hdot⟩ := h
  have hparts := congrArg (List.splitOn '-') hrest
  have hairun : "airun-".toList ++ rest = "airun".toList ++ '-' :: rest := rfl
  rw [hairun, List.splitOn_append_cons_self_of_not_mem (by decide),
    List.splitOn_append_cons_self, hsplit, List.cons_append] at hparts
  rw [← (List.cons.inj hparts).1] at hdot
  revert hdot
  decide

theorem isLaunchToken_ofNat (n : Nat) : isLaunchToken (Text.ofNat n) = true := by
  have hne : Text.ofNat n ≠ [] := Nat.toDigits_ne_nil
  have hdigits : (Text.ofNat n).all Char.isDigit = true :=
    List.all_eq_true.mpr fun c hc => Nat.isDigit_of_mem_toDigits (by decide) (by decide) hc
  simp [isLaunchToken, hne, hdigits]

theorem airun_names (name : Text) (pid : UInt32) :
    normaliseUnit (scope (airunUnit name pid)) = some name := by
  rw [scope, normaliseUnit_scope]
  have hshape : airunUnit name pid =
      "app-airun-".toList ++ (name ++ '-' :: Text.ofNat pid.toNat) :=
    List.append_assoc _ _ _
  have htoken : TokenOff (name ++ '-' :: Text.ofNat pid.toNat) name :=
    ⟨Text.ofNat pid.toNat, isLaunchToken_ofNat _, rfl⟩
  exact .airun hshape (Or.inl htoken)

theorem launched_names {id token : Text} (hid : Dotted id) (htoken : isLaunchToken token = true) :
    normaliseUnit (scope (launched id token)) = some id := by
  rw [scope, normaliseUnit_scope]
  have hshape : launched id token = "app-".toList ++ (id ++ '-' :: token) := by
    rw [launched, List.append_assoc]
  exact .app hshape (hid.not_airun token) (Or.inl ⟨token, htoken, rfl⟩)
    (Or.inr ⟨rfl, hid.not_launcherOff⟩)

theorem launchedBy_names {launcher id token : Text} (hdot : '.' ∉ launcher) (hdash : '-' ∉ launcher)
    (hid : Dotted id) (htoken : isLaunchToken token = true) :
    normaliseUnit (scope (launchedBy launcher id token)) = some id := by
  rw [scope, normaliseUnit_scope]
  by_cases hairun : launcher = "airun".toList
  · subst hairun
    exact .airun rfl (Or.inl ⟨token, htoken, rfl⟩)
  · have hshape : launchedBy launcher id token =
        "app-".toList ++ (launcher ++ '-' :: (id ++ '-' :: token)) := by
      rw [launchedBy, List.append_assoc]
    have hother : ¬ "airun-".toList <+: launcher ++ '-' :: (id ++ '-' :: token) := by
      rintro ⟨rest, hrest⟩
      have hparts := congrArg (List.splitOn '-') hrest
      have hsplit : "airun-".toList ++ rest = "airun".toList ++ '-' :: rest := rfl
      rw [hsplit, List.splitOn_append_cons_self_of_not_mem (by decide),
        List.splitOn_append_cons_self_of_not_mem hdash] at hparts
      exact hairun (List.cons.inj hparts).1.symm
    have htail : launcher ++ '-' :: (id ++ '-' :: token) =
        (launcher ++ '-' :: id) ++ '-' :: token := by
      rw [List.append_assoc, List.cons_append]
    exact .app hshape hother (Or.inl ⟨token, htoken, htail⟩)
      (Or.inl ⟨launcher, hdash, hdot, hid.mem, rfl⟩)

theorem LaunchOf.names {id unit : Text} (hid : Dotted id) (h : LaunchOf id unit) :
    normaliseUnit unit = some id := by
  cases h with
  | plain htoken => exact launched_names hid htoken
  | launcher hdot hdash htoken => exact launchedBy_names hdot hdash hid htoken

theorem snap_names (x : Text) {uuid : Text} (huuid : IsUuid uuid) :
    normaliseUnit (scope (snap x ++ '-' :: uuid)) = some (snap x) := by
  rw [scope, normaliseUnit_scope]
  have hshape : "snap.".toList <+: snap x ++ '-' :: uuid := by
    rw [snap, List.append_assoc]
    exact List.prefix_append _ _
  have hnamed : ¬ Unnamed (snap x ++ '-' :: uuid) := by
    rintro (⟨t, h⟩ | ⟨t, h⟩ | h) <;> simp [snap] at h
  exact .snap hnamed hshape (Or.inl ⟨uuid, huuid, rfl⟩)

/-- **A launch has the name of what was launched**, so launches agree on it exactly
    when they are of the same application. -/
theorem launches_name_applications :
    (∀ id unit, Dotted id → LaunchOf id unit → normaliseUnit unit = some id) ∧
    (∀ id id' unit unit', Dotted id → Dotted id' → LaunchOf id unit → LaunchOf id' unit' →
      (normaliseUnit unit = normaliseUnit unit' ↔ id = id')) ∧
    (∀ x uuid, IsUuid uuid → normaliseUnit (scope (snap x ++ '-' :: uuid)) = some (snap x)) ∧
    (∀ name pid, acceptsName name = true →
      normaliseUnit (scope (airunUnit name pid)) = some name) := by
  refine ⟨fun id unit hid h => h.names hid, ?_, fun x uuid huuid => snap_names x huuid,
    fun name pid _ => airun_names name pid⟩
  intro id id' unit unit' hid hid' h h'
  rw [h.names hid, h'.names hid', Option.some.injEq]

end AiDaemon.Identity
