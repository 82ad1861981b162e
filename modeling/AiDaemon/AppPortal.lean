import AiDaemon.HttpCallers
import Mathlib.Data.List.DropRight

/-!
# Sandboxed applications (`ai-daemon-portal`)

The portal tells the daemon which application is calling.  It has the pid from the bus,
and reads what the sandbox of that pid wrote down: the key file that flatpak left in the
root of the mount namespace, or the label that snapd gave the process.  A pid may change
hands while it is read, so the start time of its process is read before and after.

Each of the three texts holds words of the application beside those of the sandbox.
`flatpakAppId_written`, `snapAppId_written` and `startTime_written` say which of them
count.  `apps_are_who_their_sandbox_says` follows a call to the daemon.
-/

namespace AiDaemon.AppPortal

open Audit Identity Ledger ShimHttp

/-! ### The source -/

inductive Sandbox where
  | flatpak (appId : Text)
  | snap (appId : Text)
deriving DecidableEq, Repr

def Sandbox.appId : Sandbox → Text
  | flatpak appId | snap appId => appId

def Sandbox.kind : Sandbox → Text
  | flatpak _ => "flatpak".toList
  | snap _ => "snap".toList

def applicationLine : Text := "[Application]".toList

def nameMark : Text := "name=".toList

/-- The loop of `flatpak_app_id`. -/
def scanInfo (inApplication : Bool) : List Text → Option Text
  | [] => none
  | line :: lines =>
    let line := line.trim
    if ['['] <+: line then scanInfo (line = applicationLine) lines
    else if inApplication = false then scanInfo false lines
    else
      match nameMark.isPrefixOf? line with
      | some value => (some (Text.trim value)).filter fun value => value ≠ []
      | none => scanInfo true lines

def flatpakAppId (text : Text) : Option Text := scanInfo false text.lines

/-- `trim_end_matches` with a character. -/
def trimEndChar (c : Char) (s : Text) : Text := (s.reverse.dropWhile (· = c)).reverse

def complainWord : Text := "complain".toList

def unconfinedWord : Text := "unconfined".toList

def snapWord : Text := "snap".toList

def snapAppId (label : Text) : Option Text :=
  let label := trimEndChar '\x00' label.trim
  let (profile, mode) :=
    match splitOnce ' ' label with
    | some (profile, mode) => (profile, mode.trim)
    | none => (label, [])
  if complainWord <:+: mode ∨ unconfinedWord <:+: mode then none
  else
    match profile.splitOn '.' with
    | first :: name :: _ =>
      if first = snapWord then (some name).filter fun name => name ≠ [] else none
    | _ => none

/-- `start_time`, and `process_start_time` of the daemon: field 22 of the text of a
    `stat`. -/
def startTime (stat : Option Text) : Option Nat :=
  (stat.bind (Text.rsplitOnce [')'])).bind fun cut =>
    (Text.splitWhitespace cut.2)[19]?.bind parseUsize

/-- What the four reads of `sandbox_of` find. -/
structure Reads where
  statBefore : Option Text
  info : Option Text
  label : Option Text
  statAfter : Option Text

/-- What the files of a sandbox say. -/
def saidBy (info label : Option Text) : Option Sandbox :=
  match info with
  | some text => (flatpakAppId text).map .flatpak
  | none => (label.bind snapAppId).map .snap

def sandboxOf (reads : Reads) : Option Sandbox := do
  let before ← startTime reads.statBefore
  let found := saidBy reads.info reads.label
  let after ← startTime reads.statAfter
  if after ≠ before then none else found

def callerPid (credentials : Except BusError (Option UInt32)) : Except BusError UInt32 := do
  match ← credentials with
  | some pid => .ok pid
  | none => .error (.failed "the bus would not say who is calling".toList)

def unsandboxedText (pid : UInt32) : Text :=
  "pid ".toList ++ Text.ofNat pid.toNat ++
    (" is not in a sandbox this portal can vouch for; call " ++
      "io.github.agraves.AIDaemon1 directly, where you will be identified by unit rather than " ++
      "by application id").toList

def assertFor (credentials : Except BusError (Option UInt32)) (reads : UInt32 → Reads) :
    Except BusError Sandbox := do
  let pid ← callerPid credentials
  match sandboxOf (reads pid) with
  | some sandbox => .ok sandbox
  | none => .error (.accessDenied (unsandboxedText pid))

/-- `create_session`: the options the daemon is called with. -/
def createSession (credentials : Except BusError (Option UInt32)) (reads : UInt32 → Reads)
    (options : Options) : Except BusError Options := do
  let sandbox ← assertFor credentials reads
  if (options.lookup "portal_app_id".toList).isSome then
    .error (.accessDenied "portal_app_id is this portal's to set, not the caller's".toList)
  else .ok (options.insert "portal_app_id".toList (ofText sandbox.appId))

/-! ### What flatpak wrote -/

/-- A line of a key file. -/
inductive Item where
  | group (name : Text)
  | entry (key value : Text)
  | blank
deriving DecidableEq

/-- Nothing in it can be taken for something else. -/
def Item.Plain : Item → Prop
  | .group name => '\n' ∉ name ∧ '\r' ∉ name
  | .entry key value =>
    (key ≠ [] ∧ ∀ c ∈ key, Text.isWhite c = false ∧ c ≠ '=' ∧ c ≠ '[') ∧ '\n' ∉ value ∧ '\r' ∉ value
  | .blank => True

def Item.text : Item → Text
  | .group name => '[' :: (name ++ [']'])
  | .entry key value => key ++ '=' :: value
  | .blank => []

/-- A key file, as it is written. -/
structure KeyFile where
  items : List Item
  plain : ∀ item ∈ items, item.Plain

def KeyFile.text (file : KeyFile) : Text := unlines (file.items.map Item.text)

def application : Text := "Application".toList

def nameKey : Text := "name".toList

/-- The first `name` in a group `Application`, when the items before were in this group. -/
def nameIn (group : Option Text) : List Item → Option Text
  | [] => none
  | .group name :: items => nameIn (some name) items
  | .entry key value :: items =>
    if group = some application ∧ key = nameKey then
      (some value.trim).filter fun value => value ≠ []
    else nameIn group items
  | .blank :: items => nameIn group items

theorem lines_unlines {lines : List Text} (h : ∀ line ∈ lines, '\n' ∉ line ∧ '\r' ∉ line) :
    (unlines lines).lines = lines := by
  suffices hmore : ∀ text : Text, Ended text → Text.lines (text ++ unlines lines) =
      Text.lines text ++ lines by
    have hempty : Text.lines [] = [] := rfl
    simpa [hempty] using hmore [] (.inl rfl)
  induction lines with
  | nil => simp [unlines]
  | cons line lines ih =>
    intro text htext
    obtain ⟨⟨hlf, hcr⟩, hlines⟩ := List.forall_mem_cons.mp h
    have hline := Text.lines_append_line htext hlf (Text.stripCr_eq_self hcr)
    have hrest := ih hlines (text ++ (line ++ ['\n'])) (ended_append_line text line)
    rw [hline] at hrest
    simpa [unlines] using hrest

/-- White space at the end comes off behind a word. -/
theorem trim_word {word : Text} (hne : word ≠ []) (hword : ∀ c ∈ word, Text.isWhite c = false)
    (s : Text) : Text.trim (word ++ s) = word ++ s.rdropWhile Text.isWhite := by
  obtain ⟨c, rest, rfl⟩ := List.exists_cons_of_ne_nil hne
  have hc := hword c List.mem_cons_self
  rw [Text.trim, List.cons_append, List.dropWhile_cons_of_neg (by simp [hc])]
  show List.rdropWhile Text.isWhite (c :: rest ++ s) = _
  induction s using List.reverseRecOn with
  | nil =>
    rw [List.append_nil, List.rdropWhile_nil, List.append_nil, List.rdropWhile_eq_self_iff]
    intro _
    rw [hword _ (List.getLast_mem _)]
    simp
  | append_singleton s x ih =>
    rw [← List.append_assoc]
    by_cases hx : Text.isWhite x = true
    · rw [List.rdropWhile_concat_pos _ _ _ hx, List.rdropWhile_concat_pos _ _ _ hx, ih]
    · rw [List.rdropWhile_concat_neg _ _ _ hx, List.rdropWhile_concat_neg _ _ _ hx,
        List.append_assoc]

theorem trim_rdropWhile (s : Text) : Text.trim (s.rdropWhile Text.isWhite) = Text.trim s := by
  have hsplit : s.rdropWhile Text.isWhite ++ s.rtakeWhile Text.isWhite = s :=
    List.rdropWhile_append_rtakeWhile
  have hwhite : ∀ c ∈ s.rtakeWhile Text.isWhite, Text.isWhite c = true := by
    intro c hc
    exact List.mem_rtakeWhile_imp hc
  have htrim := trim_padded (List.forall_mem_nil _) hwhite (s.rdropWhile Text.isWhite)
  rw [List.nil_append, hsplit] at htrim
  exact htrim.symm

theorem trim_group (name : Text) : Text.trim (Item.group name).text = (Item.group name).text := by
  rw [Item.text, ← List.singleton_append, trim_word (by simp) (by simp; decide),
    List.rdropWhile_concat_neg _ _ _ (by decide)]

theorem group_line (name : Text) :
    (Item.group name).text = applicationLine ↔ name = application := by
  have happlication : applicationLine = '[' :: (application ++ [']']) := by decide
  rw [Item.text, happlication, List.cons.injEq, List.append_left_inj]
  exact and_iff_right rfl

/-- Only an entry under this very key begins like it. -/
theorem isPrefixOf?_key {key : Text} (hkey : '=' ∉ key) (rest : Text) :
    nameMark.isPrefixOf? (key ++ '=' :: rest) = if key = nameKey then some rest else none := by
  have hmark : ∀ more, nameMark ++ more = nameKey ++ '=' :: more := fun _ => rfl
  have hplain : '=' ∉ nameKey := by decide
  by_cases hname : key = nameKey
  · rw [if_pos hname, hname, ← hmark]
    exact Text.isPrefixOf?_append nameMark rest
  · rw [if_neg hname, Text.isPrefixOf?_eq_none]
    rintro ⟨more, heq⟩
    have hcut := splitOnce_append hkey rest
    rw [← heq, hmark, splitOnce_append hplain, Option.some.injEq, Prod.mk.injEq] at hcut
    exact hname hcut.1.symm

theorem scanInfo_group (inApplication : Bool) (name : Text) (lines : List Text) :
    scanInfo inApplication ((Item.group name).text :: lines) =
      scanInfo (name = application) lines := by
  have hstart : ['['] <+: (Item.group name).text := ⟨name ++ [']'], rfl⟩
  rw [scanInfo, trim_group]
  show (if ['['] <+: (Item.group name).text then _ else _) = _
  rw [if_pos hstart]
  congr 1
  rw [decide_eq_decide, group_line]

theorem scanInfo_blank (inApplication : Bool) (lines : List Text) :
    scanInfo inApplication (Item.blank.text :: lines) = scanInfo inApplication lines := by
  cases inApplication <;> rfl

theorem scanInfo_entry (inApplication : Bool) {key value : Text}
    (hentry : (Item.entry key value).Plain) (lines : List Text) :
    scanInfo inApplication ((Item.entry key value).text :: lines) =
      if inApplication = true ∧ key = nameKey then
        (some value.trim).filter fun value => value ≠ []
      else scanInfo inApplication lines := by
  obtain ⟨⟨hne, hkey⟩, -⟩ := hentry
  have htrim : Text.trim (Item.entry key value).text =
      key ++ '=' :: value.rdropWhile Text.isWhite := by
    have hword : ∀ c ∈ key ++ ['='], Text.isWhite c = false := by
      intro c hc
      rcases List.mem_append.mp hc with hin | hin
      · exact (hkey c hin).1
      · rw [List.mem_singleton.mp hin]
        decide
    have hsplit : (Item.entry key value).text = (key ++ ['=']) ++ value := by
      rw [List.append_assoc]
      rfl
    rw [hsplit, trim_word (by simp) hword, List.append_assoc]
    rfl
  have hstart : ¬ ['['] <+: key ++ '=' :: value.rdropWhile Text.isWhite := by
    obtain ⟨c, rest, rfl⟩ := List.exists_cons_of_ne_nil hne
    rw [List.cons_append, List.cons_prefix_cons]
    exact fun h => (hkey c List.mem_cons_self).2.2 h.1.symm
  have hequals : '=' ∉ key := fun hin => (hkey '=' hin).2.1 rfl
  rw [scanInfo, htrim, if_neg hstart, isPrefixOf?_key hequals]
  cases inApplication with
  | false => rw [if_pos rfl, if_neg (fun h => Bool.false_ne_true h.1)]
  | true =>
    rw [if_neg (fun h => Bool.noConfusion h)]
    by_cases hname : key = nameKey
    · rw [if_pos hname, if_pos ⟨rfl, hname⟩]
      dsimp only
      rw [trim_rdropWhile]
    · rw [if_neg hname, if_neg (fun h => hname h.2)]

theorem scanInfo_items (items : List Item) (hplain : ∀ item ∈ items, item.Plain)
    (group : Option Text) :
    scanInfo (group = some application) (items.map Item.text) = nameIn group items := by
  induction items generalizing group with
  | nil => rfl
  | cons item items ih =>
    obtain ⟨hitem, hitems⟩ := List.forall_mem_cons.mp hplain
    rw [List.map_cons]
    cases item with
    | group name =>
      rw [scanInfo_group, nameIn, ← ih hitems]
      congr 1
      rw [decide_eq_decide, Option.some.injEq]
    | blank => rw [scanInfo_blank, nameIn, ih hitems]
    | entry key value =>
      rw [scanInfo_entry _ hitem, nameIn, ih hitems]
      simp only [decide_eq_true_eq]

theorem Item.Plain.oneLine {item : Item} (h : item.Plain) :
    '\n' ∉ item.text ∧ '\r' ∉ item.text := by
  cases item with
  | group name => simpa [Item.text, Item.Plain] using h
  | entry key value =>
    obtain ⟨⟨-, hkey⟩, hlf, hcr⟩ := h
    have hwhite : ∀ c, Text.isWhite c = true → c ∉ key := by
      intro c hc hin
      rw [(hkey c hin).1] at hc
      cases hc
    have hlf' := hwhite '\n' (by decide)
    have hcr' := hwhite '\r' (by decide)
    simp [Item.text, hlf, hcr, hlf', hcr']
  | blank => simp [Item.text]

/-- **The name of an application is under `Application`.** Nothing else in the file is ever
    taken for it, whatever the other groups and values are. -/
theorem flatpakAppId_written (file : KeyFile) :
    flatpakAppId file.text = nameIn none file.items := by
  have hlines : ∀ line ∈ file.items.map Item.text, '\n' ∉ line ∧ '\r' ∉ line := by
    intro line hline
    obtain ⟨item, hitem, rfl⟩ := List.mem_map.mp hline
    exact (file.plain item hitem).oneLine
  rw [flatpakAppId, KeyFile.text, lines_unlines hlines]
  exact scanInfo_items file.items file.plain none

/-! ### What snapd wrote -/

inductive Mode where
  | enforce
  | complain
  | kill
  | unconfined
  | prompt
deriving DecidableEq, Repr

def Mode.text : Mode → Text
  | enforce => "(enforce)".toList
  | complain => "(complain)".toList
  | kill => "(kill)".toList
  | unconfined => "(unconfined)".toList
  | prompt => "(prompt)".toList

/-- The profile holds what runs under it. -/
def Mode.confines : Mode → Bool
  | enforce | kill | prompt => true
  | complain | unconfined => false

/-- The label of a process of a snap. -/
structure SnapLabel where
  name : Text
  app : Text
  mode : Mode
  name_plain : name ≠ [] ∧ ∀ c ∈ name, Text.isWhite c = false ∧ c ≠ '.'
  app_plain : ∀ c ∈ app, Text.isWhite c = false

def SnapLabel.profile (label : SnapLabel) : Text :=
  snapWord ++ '.' :: (label.name ++ '.' :: label.app)

/-- As the kernel gives it, with what older ones put behind it. -/
def SnapLabel.text (label : SnapLabel) (nul : Bool) : Text :=
  label.profile ++ ' ' :: (label.mode.text ++ [if nul then '\x00' else '\n'])

theorem Mode.text_ends (mode : Mode) : ∃ body, mode.text = body ++ [')'] := by
  cases mode <;> exact ⟨_, (List.dropLast_append_getLast (by decide)).symm⟩

theorem Mode.trim_text (mode : Mode) : mode.text.trim = mode.text := by
  cases mode <;> decide

theorem Mode.complains_iff (mode : Mode) :
    (complainWord <:+: mode.text ∨ unconfinedWord <:+: mode.text) ↔ mode.confines = false := by
  cases mode <;> decide

theorem SnapLabel.profile_word (label : SnapLabel) :
    label.profile ≠ [] ∧ ∀ c ∈ label.profile, Text.isWhite c = false := by
  refine ⟨by simp [profile], ?_⟩
  intro c hc
  rw [profile, List.mem_append, List.mem_cons, List.mem_append, List.mem_cons] at hc
  rcases hc with hin | rfl | hin | rfl | hin
  · have hsnap : snapWord.all (fun c => !Text.isWhite c) = true := by decide
    simpa using List.all_eq_true.mp hsnap c hin
  · decide
  · exact (label.name_plain.2 c hin).1
  · decide
  · exact label.app_plain c hin

/-- White space and NULs at the end come off. -/
theorem SnapLabel.trim_text (label : SnapLabel) (nul : Bool) :
    trimEndChar '\x00' (label.text nul).trim = label.profile ++ ' ' :: label.mode.text := by
  obtain ⟨body, hbody⟩ := label.mode.text_ends
  have hend : ∀ p : Char → Bool, p ')' = false →
      (label.profile ++ ' ' :: (body ++ [')'])).rdropWhile p =
        label.profile ++ ' ' :: (body ++ [')']) := by
    intro p hp
    have hsplit : label.profile ++ ' ' :: (body ++ [')']) =
        (label.profile ++ ' ' :: body) ++ [')'] := by simp
    rw [hsplit, List.rdropWhile_concat_neg _ _ _ (by simp [hp])]
  have hspace : ∀ c : Char, Text.isWhite c = true →
      (' ' :: (body ++ [')'] ++ [c])).rdropWhile Text.isWhite = ' ' :: (body ++ [')']) := by
    intro c hc
    have hsplit : ' ' :: (body ++ [')'] ++ [c]) = ((' ' :: body) ++ [')']) ++ [c] := by simp
    rw [hsplit, List.rdropWhile_concat_pos _ _ _ hc,
      List.rdropWhile_concat_neg _ _ _ (by decide)]
    rfl
  rw [text, trim_word label.profile_word.1 label.profile_word.2, hbody]
  cases nul with
  | false =>
    rw [if_neg Bool.false_ne_true, hspace '\n' (by decide)]
    exact hend _ (by decide)
  | true =>
    have hsplit : ' ' :: (body ++ [')'] ++ ['\x00']) = (' ' :: (body ++ [')'])) ++ ['\x00'] := by
      simp
    rw [if_pos rfl, hsplit, List.rdropWhile_concat_neg _ _ _ (by decide), ← List.append_assoc]
    show List.rdropWhile _ _ = _
    rw [List.rdropWhile_concat_pos _ _ _ (by decide)]
    exact hend _ (by decide)

/-- **The name of a snap is the second part of its profile**, and only while the profile is
    in force. -/
theorem snapAppId_written (label : SnapLabel) (nul : Bool) :
    snapAppId (label.text nul) = if label.mode.confines then some label.name else none := by
  have hspace : ' ' ∉ label.profile := by
    intro hin
    have hwhite := label.profile_word.2 ' ' hin
    revert hwhite
    decide
  have hdot : '.' ∉ label.name := fun hin => (label.name_plain.2 '.' hin).2 rfl
  have hparts : label.profile.splitOn '.' = snapWord :: label.name :: label.app.splitOn '.' := by
    rw [SnapLabel.profile, List.splitOn_append_cons_self, List.splitOn_append_cons_self,
      List.splitOn_eq_singleton (by decide), List.splitOn_eq_singleton hdot]
    rfl
  rw [snapAppId, label.trim_text, splitOnce_append hspace]
  dsimp only
  rw [label.mode.trim_text, hparts]
  cases hmode : label.mode.confines with
  | false =>
    rw [if_pos (label.mode.complains_iff.mpr hmode)]
    rfl
  | true =>
    have hnot : ¬(complainWord <:+: label.mode.text ∨ unconfinedWord <:+: label.mode.text) := by
      rw [label.mode.complains_iff, hmode]
      exact Bool.noConfusion
    rw [if_neg hnot]
    dsimp only
    rw [if_pos rfl, if_pos rfl, Option.filter_some, if_pos (by simpa using label.name_plain.1)]

/-! ### What the kernel wrote -/

/-- A `stat`: what is in parentheses is for the process to choose. -/
structure Stat where
  pid : UInt32
  comm : Text
  /-- The fields from the third to the twenty-first. -/
  fields : List Text
  start : Nat
  more : List Text
  start_lt : start < 2 ^ 64
  fields_length : fields.length = 19
  plain : ∀ field ∈ fields ++ more, field ≠ [] ∧ ∀ c ∈ field, Text.isWhite c = false ∧ c ≠ ')'

def Stat.words (stat : Stat) : List Text := stat.fields ++ Text.ofNat stat.start :: stat.more

def Stat.text (stat : Stat) : Text :=
  (Text.ofNat stat.pid.toNat ++ " (".toList ++ stat.comm) ++
    ')' :: (stat.words.flatMap (fun word => ' ' :: word) ++ ['\n'])

theorem splitWhitespace_white {c : Char} (hc : Text.isWhite c = true) (s : Text) :
    Text.splitWhitespace (c :: s) = Text.splitWhitespace s := by
  rw [Text.splitWhitespace, List.splitOnP_cons_eq_if_modifyHead, if_pos hc,
    List.filter_cons_of_neg (by simp)]
  rfl

/-- Words with a space before each, and the end of the line. -/
theorem splitWhitespace_words {words : List Text}
    (hwords : ∀ word ∈ words, word ≠ [] ∧ ∀ c ∈ word, Text.isWhite c = false) :
    Text.splitWhitespace (words.flatMap (fun word => ' ' :: word) ++ ['\n']) = words := by
  induction words with
  | nil => decide
  | cons word words ih =>
    obtain ⟨⟨hne, hword⟩, hwords⟩ := List.forall_mem_cons.mp hwords
    have hnext : ∃ c rest, words.flatMap (fun word => ' ' :: word) ++ ['\n'] = c :: rest ∧
        Text.isWhite c = true := by
      cases words with
      | nil => exact ⟨'\n', [], rfl, by decide⟩
      | cons next words => exact ⟨' ', _, rfl, by decide⟩
    obtain ⟨c, rest, hrest, hc⟩ := hnext
    have hthen := ih hwords
    rw [hrest, splitWhitespace_white hc] at hthen
    rw [List.flatMap_cons, List.append_assoc, hrest, List.cons_append,
      splitWhitespace_white (by decide)]
    rw [Text.splitWhitespace] at hthen ⊢
    rw [List.splitOnP_append_cons_of_forall_mem (by simpa using hword) c hc,
      List.filter_cons_of_pos (by simpa using hne), hthen]

theorem digits?_ofNat (n : Nat) : Text.digits? (Text.ofNat n) = some n := by
  have hdigits : (Text.ofNat n).all Char.isDigit = true := by
    rw [List.all_eq_true]
    intro c hc
    exact Nat.isDigit_of_mem_toDigits (by decide) (by decide) hc
  have hne : Text.ofNat n ≠ [] := Nat.toDigits_ne_nil
  have hvalue : (Text.ofNat n).foldl (fun acc c => acc * 10 + (c.toNat - '0'.toNat)) 0 = n := by
    have hread := Nat.ofDigitChars_toDigits (b := 10) (n := n) (by decide) (by decide)
    rw [Nat.ofDigitChars] at hread
    simpa [Text.ofNat, Nat.mul_comm] using hread
  rw [Text.digits?, if_pos ⟨hne, hdigits⟩, hvalue]

theorem parseUsize_ofNat {n : Nat} (h : n < 2 ^ 64) : parseUsize (Text.ofNat n) = some n := by
  have hplus : ['+'].isPrefixOf? (Text.ofNat n) = none := by
    rw [Text.isPrefixOf?_eq_none]
    intro hpre
    exact not_mem_ofNat (by decide) n (hpre.subset List.mem_cons_self)
  rw [parseUsize, hplus, Option.getD_none, digits?_ofNat, Option.filter_some, if_pos (by simpa)]

theorem isWhite_digit {c : Char} (h : c.isDigit = true) : Text.isWhite c = false := by
  simp only [Char.isDigit, Bool.and_eq_true, decide_eq_true_eq, ge_iff_le,
    UInt32.le_iff_toNat_le] at h
  simp only [Text.isWhite, Bool.or_eq_false_iff, Bool.and_eq_false_iff, decide_eq_false_iff_not,
    UInt32.le_iff_toNat_le, ← UInt32.toNat_inj]
  simp at h ⊢
  omega

/-- **A process has no say in when it started**, whatever it calls itself. -/
theorem startTime_written (stat : Stat) : startTime (some stat.text) = some stat.start := by
  have hwords : ∀ word ∈ stat.words, word ≠ [] ∧ ∀ c ∈ word, Text.isWhite c = false ∧ c ≠ ')' := by
    intro word hword
    rw [Stat.words, List.mem_append, List.mem_cons] at hword
    rcases hword with hin | rfl | hin
    · exact stat.plain word (List.mem_append_left _ hin)
    · refine ⟨Nat.toDigits_ne_nil, ?_⟩
      intro c hc
      have hdigit : c.isDigit = true := Nat.isDigit_of_mem_toDigits (by decide) (by decide) hc
      exact ⟨isWhite_digit hdigit, by rintro rfl; cases hdigit⟩
    · exact stat.plain word (List.mem_append_right _ hin)
  have hclose : ')' ∉ stat.words.flatMap (fun word => ' ' :: word) ++ ['\n'] := by
    intro hin
    rcases List.mem_append.mp hin with hin | hin
    · obtain ⟨word, hword, hc⟩ := List.mem_flatMap.mp hin
      rcases List.mem_cons.mp hc with heq | hc
      · cases heq
      · exact ((hwords word hword).2 ')' hc).2 rfl
    · simp at hin
  have hnth : stat.words[19]? = some (Text.ofNat stat.start) := by
    rw [Stat.words, List.getElem?_append_right (by rw [stat.fields_length]), stat.fields_length]
    rfl
  rw [startTime, Option.bind_some, Stat.text, Text.rsplitOnce_char_append _ hclose,
    Option.bind_some, splitWhitespace_words fun word hword =>
      ⟨(hwords word hword).1, fun c hc => ((hwords word hword).2 c hc).1⟩, hnth, Option.bind_some,
    parseUsize_ofNat stat.start_lt]

/-! ### Pids that change hands -/

/-- A process.  What is read of it may change while it runs; when it started does not. -/
structure Proc where
  start : Nat
  stat : Nat → Stat
  info : Nat → Option Text
  label : Nat → Option Text
  stat_start : ∀ t, (stat t).start = start

/-- The processes that hold a pid, over time.  The kernel hands it on no sooner than the
    clock of the start times ticks. -/
structure Holders where
  holder : Nat → Option Proc
  held : ∀ {first t last p q}, first ≤ t → t ≤ last → holder first = some p →
    holder last = some q → q.start = p.start → holder t = some p

/-- When the four reads of `sandbox_of` take place. -/
structure Window where
  before : Nat
  info : Nat
  label : Nat
  after : Nat
  before_le : before ≤ info
  info_le : info ≤ label
  label_le : label ≤ after

def Holders.reads (holders : Holders) (window : Window) : Reads where
  statBefore := (holders.holder window.before).map fun p => (p.stat window.before).text
  info := (holders.holder window.info).bind fun p => p.info window.info
  label := (holders.holder window.label).bind fun p => p.label window.label
  statAfter := (holders.holder window.after).map fun p => (p.stat window.after).text

/-- One process had the pid all the while. -/
def Holders.Throughout (holders : Holders) (window : Window) (p : Proc) : Prop :=
  ∀ t, window.before ≤ t → t ≤ window.after → holders.holder t = some p

theorem startTime_holder (holder : Option Proc) (t : Nat) :
    startTime (holder.map fun p => (p.stat t).text) = holder.map Proc.start := by
  cases holder with
  | none => rfl
  | some p => rw [Option.map_some, Option.map_some, startTime_written, p.stat_start]

/-- What one process wrote, or nothing. -/
theorem sandboxOf_reads (holders : Holders) (window : Window) (sandbox : Sandbox) :
    sandboxOf (holders.reads window) = some sandbox ↔
      ∃ p, holders.Throughout window p ∧
        saidBy (p.info window.info) (p.label window.label) = some sandbox := by
  obtain ⟨before, info, label, after, hinfo, hlabel, hafter⟩ := window
  simp only [sandboxOf, Holders.reads, startTime_holder, bind, Option.bind_eq_some_iff,
    Option.map_eq_some_iff]
  constructor
  · rintro ⟨_, ⟨p, hp, rfl⟩, _, ⟨q, hq, rfl⟩, hsaid⟩
    by_cases hstart : q.start = p.start
    · have hheld : ∀ t, before ≤ t → t ≤ after → holders.holder t = some p := fun t hfirst hlast =>
        holders.held hfirst hlast hp hq hstart
      rw [if_neg (not_not.mpr hstart), hheld info hinfo (hlabel.trans hafter),
        hheld label (hinfo.trans hlabel) hafter] at hsaid
      exact ⟨p, hheld, hsaid⟩
    · rw [if_pos hstart] at hsaid
      cases hsaid
  · rintro ⟨p, hheld, hsaid⟩
    refine ⟨p.start, ⟨p, hheld _ le_rfl ((hinfo.trans hlabel).trans hafter), rfl⟩, p.start,
      ⟨p, hheld _ ((hinfo.trans hlabel).trans hafter) le_rfl, rfl⟩, ?_⟩
    rw [if_neg (not_not.mpr rfl), hheld info hinfo (hlabel.trans hafter),
      hheld label (hinfo.trans hlabel) hafter]
    exact hsaid

theorem assertFor_ok (credentials : Except BusError (Option UInt32)) (reads : UInt32 → Reads)
    (sandbox : Sandbox) :
    assertFor credentials reads = .ok sandbox ↔
      ∃ pid, credentials = .ok (some pid) ∧ sandboxOf (reads pid) = some sandbox := by
  rcases credentials with e | _ | pid
  · simp only [assertFor, callerPid, bind, Except.bind, reduceCtorEq, false_and, exists_false]
  · simp only [assertFor, callerPid, bind, Except.bind, reduceCtorEq, false_and, exists_false,
      Except.ok.injEq]
  · simp only [assertFor, callerPid, bind, Except.bind, Except.ok.injEq, Option.some.injEq,
      exists_eq_left']
    cases sandboxOf (reads pid) with
    | none => simp only [reduceCtorEq]
    | some found => simp only [Except.ok.injEq, Option.some.injEq]

/-- The portal lets a call through, with its own word on who is calling. -/
theorem createSession_ok (credentials : Except BusError (Option UInt32)) (reads : UInt32 → Reads)
    (options forwarded : Options) :
    createSession credentials reads options = .ok forwarded ↔
      options.lookup "portal_app_id".toList = none ∧
        ∃ pid sandbox, credentials = .ok (some pid) ∧ sandboxOf (reads pid) = some sandbox ∧
          forwarded = options.insert "portal_app_id".toList (ofText sandbox.appId) := by
  have hassert := assertFor_ok credentials reads
  unfold createSession
  constructor
  · intro hsession
    cases hfound : assertFor credentials reads with
    | error e =>
      rw [hfound] at hsession
      cases hsession
    | ok sandbox =>
      rw [hfound] at hsession
      simp only [bind, Except.bind] at hsession
      obtain ⟨pid, hpid, hsandbox⟩ := (hassert sandbox).mp hfound
      by_cases hset : (options.lookup "portal_app_id".toList).isSome = true
      · rw [if_pos hset] at hsession
        cases hsession
      · rw [if_neg hset, Except.ok.injEq] at hsession
        exact ⟨by simpa using hset, pid, sandbox, hpid, hsandbox, hsession.symm⟩
  · rintro ⟨hset, pid, sandbox, hpid, hsandbox, rfl⟩
    rw [(hassert sandbox).mpr ⟨pid, hpid, hsandbox⟩, hset]
    rfl

end AiDaemon.AppPortal
