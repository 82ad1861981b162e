import AiDaemon.Capacity
import AiDaemon.Checked
import AiDaemon.ConfigMerge
import AiDaemon.LastOfEach
import AiDaemon.Spend

/-!
# Loading the configuration (`config.rs`: `Config::load`, `last_wins`, `validate`)

The lists of the files are put one behind the other while the files are read.
`last_wins` then keeps one item of each key: the last, in the place of the first.
Its loop has a map from keys to places beside the vector of the places, and writes
into the vector where the map says.

All that look a name up in these lists take the first item that has it, and so find
what the files declare last (`redeclaration_overrides`).
-/

namespace AiDaemon.ConfigLoad

open Attach Checked Dropin LastOfEach Ledger

/-! ### The source -/

/-- `config::Backend`. -/
structure Backend where
  name : Text
  exec : Text
  connect : Option Text
  args : List Text
  enabled : Bool
  env : Table Text Text

/-- What the tables hold. Nothing here looks into `[daemon]`. -/
def Tables (Daemon : Type) : TableName → Type
  | .daemon => Daemon
  | .policy => PolicyConfig
  | .scheduler => Sched.Config
  | .attachments => AttachmentBudget

abbrev Config (Daemon R : Type) :=
  Dropin.Config (Tables Daemon) Backend (Spend.ModelPrice R) IdentityRule

abbrev Document (Daemon R : Type) :=
  Dropin.Document (Tables Daemon) Backend (Spend.ModelPrice R) IdentityRule

/-- Where a file is, and what reading it gives. -/
structure File where
  path : Text
  contents : Except Text Text

section LastWins

variable {ε α κ : Type} [DecidableEq κ] (key : α → κ)

/-- The loop of `last_wins`. -/
def place : List α → Table κ Nat → List (Option α) → Run ε (List (Option α))
  | [], _, kept => .ok kept
  | item :: items, positions, kept =>
    match positions.lookup (key item) with
    | some position => do
      let kept ← put kept position (some item)
      place items positions kept
    | none => place items (positions.insert (key item) kept.length) (kept ++ [some item])

def lastWins (items : List α) : Run ε (List α) := do
  let kept ← place key items ∅ []
  return kept.reduceOption

end LastWins

section Validate

variable (isEscaped : Char → Bool)

def neitherText (name : Text) : Text :=
  "backend ".toList ++ Turn.quoted isEscaped name ++
    " says neither exec nor connect, so there is nothing to talk to".toList

def bothText (name : Text) : Text :=
  "backend ".toList ++ Turn.quoted isEscaped name ++
    " says both exec and connect; it is one or the other".toList

def besideText (name : Text) : Text :=
  "backend ".toList ++ Turn.quoted isEscaped name ++
    " sets args or env alongside connect, and neither can apply to a process this daemon ".toList ++
    "does not start".toList

/-- The body of the loop of `validate`. -/
def checkBackend (backend : Backend) : Except Text Unit :=
  match !backend.exec.isEmpty, backend.connect.isSome with
  | false, false => .error (neitherText isEscaped backend.name)
  | true, true => .error (bothText isEscaped backend.name)
  | _, _ =>
    if backend.connect.isSome && (!backend.args.isEmpty || !backend.env.entries.isEmpty) then
      .error (besideText isEscaped backend.name)
    else .ok ()

variable {Daemon R : Type}

/-- `Config::validate`. -/
def validate (config : Config Daemon R) : Except Text Unit := do
  config.backends.forM (checkBackend isEscaped)
  Capacity.validate (config.table .attachments)

end Validate

section Load

variable {Daemon R α : Type} (isEscaped : Char → Bool)
  (parse : Text → Except Text (Document Daemon R)) (defaults : ∀ t, Tables Daemon t)

/-- The `map_err` of `load`. -/
def File.blame (file : File) : Except Text α → Run Text α
  | .ok a => .ok a
  | .error e => fail (file.path ++ ": ".toList ++ e)

/-- The text of a file, and what is parsed from it. -/
def File.read (file : File) : Run Text (Text × Document Daemon R) := do
  let text ← file.blame file.contents
  let doc ← file.blame (parse text)
  return (text, doc)

/-- The loop of `load` over the drop-ins. -/
def readFiles (config : Config Daemon R) : List File → Run Text (Config Daemon R)
  | [] => .ok config
  | file :: files => do
    let (text, doc) ← file.read parse
    readFiles (config.merge (doc.config defaults) text) files

/-- `Config::load`, of the main file, which is read as empty where there is none, and of
    the drop-ins in name order. -/
def load (main : File) (dropins : List File) : Run Text (Config Daemon R) := do
  let (_, doc) ← main.read parse
  let config ← readFiles parse defaults (doc.config defaults) dropins
  let backends ← lastWins Backend.name config.backends
  let identities ← lastWins IdentityRule.identity config.identities
  let prices ← lastWins Spend.ModelPrice.model config.prices
  let config := { config with backends, identities, prices }
  match validate isEscaped config with
  | .ok () => return config
  | .error e => fail e

end Load

/-- The specs of `Backends::new`. -/
def specs (backends : List Backend) : List Backend := backends.filter Backend.enabled

/-- The spec that `Backends::get` finds. -/
def specOf (backends : List Backend) (name : Text) : Option Backend :=
  (specs backends).find? fun spec => spec.name = name

/-- What the policy engine has of the configuration. -/
def policyOf {Daemon R : Type} (config : Config Daemon R) : AiDaemon.Config where
  policy := config.table .policy
  identities := config.identities

/-! ### The loop -/

section LastWins

variable {ε α κ : Type} [DecidableEq κ] (key : α → κ)

/-- The map has the place of every key that was seen, and the vector its last item. -/
structure InStep (seen : List α) (positions : Table κ Nat) (kept : List (Option α)) : Prop where
  positions : ∀ k, positions.lookup k = (seen.map key).eraseDups.idxOf? k
  kept : kept = slots key seen

theorem InStep.nil : InStep key [] ∅ [] where
  positions k := AList.lookup_empty k
  kept := rfl

variable {key} {seen : List α} {positions : Table κ Nat} {kept : List (Option α)}

/-- The map is right about a key that comes again, and its item is replaced. -/
theorem InStep.again (h : InStep key seen positions kept) {item : α} {position : Nat}
    (hfound : positions.lookup (key item) = some position) :
    position < kept.length ∧
      InStep key (seen ++ [item]) positions (kept.set position (some item)) := by
  have hposition := (h.positions _).symm.trans hfound
  have hmem : key item ∈ seen.map key := by
    rw [← List.mem_eraseDups, ← List.isSome_idxOf?, hposition]
    rfl
  have hidx : (seen.map key).eraseDups.idxOf (key item) = position := by
    rw [List.idxOf_eq_getD_idxOf?, hposition, Option.getD_some]
  refine ⟨?_, ?_, ?_⟩
  · rw [h.kept, length_slots, ← hidx]
    exact List.idxOf_lt_length_of_mem (List.mem_eraseDups.2 hmem)
  · intro k
    rw [h.positions, List.map_append, List.map_singleton, eraseDups_concat, if_pos hmem]
  · rw [slots_concat, if_pos hmem, hidx, h.kept]

theorem InStep.fresh (h : InStep key seen positions kept) {item : α}
    (hnone : positions.lookup (key item) = none) :
    InStep key (seen ++ [item]) (positions.insert (key item) kept.length)
      (kept ++ [some item]) := by
  have hfresh : key item ∉ seen.map key := by
    rw [← List.mem_eraseDups, ← List.idxOf?_eq_none_iff, ← h.positions, hnone]
  constructor
  · intro k
    rw [List.map_append, List.map_singleton, eraseDups_concat, if_neg hfresh, idxOf?_concat,
      ← h.positions, h.kept, length_slots]
    by_cases hk : k = key item
    · subst hk
      rw [AList.lookup_insert, hnone, Option.none_or, if_pos rfl]
    · rw [AList.lookup_insert_ne hk, if_neg (Ne.symm hk), Option.or_none]
  · rw [slots_concat, if_neg hfresh, h.kept]

/-- What is in step with the items seen stays so to the end, and no place is out of range. -/
theorem InStep.place (h : InStep key seen positions kept) (items : List α) :
    (place key items positions kept : Run ε _) = .ok (slots key (seen ++ items)) := by
  induction items generalizing seen positions kept with
  | nil =>
    rw [ConfigLoad.place, h.kept, List.append_nil]
  | cons item items ih =>
    have hsplit : seen ++ item :: items = (seen ++ [item]) ++ items := by simp
    rw [ConfigLoad.place, hsplit]
    cases hlookup : positions.lookup (key item) with
    | some position =>
      obtain ⟨hlt, hnext⟩ := h.again hlookup
      dsimp only
      rw [put_eq hlt, bind_ok]
      exact ih hnext
    | none => exact ih (h.fresh hlookup)

variable (key)

/-- The loop leaves the last item of each key in the place of the first. -/
theorem lastWins_eq (items : List α) :
    (lastWins key items : Run ε _) = .ok (collapse key items) := by
  rw [lastWins, (InStep.nil key).place, bind_ok]
  rfl

example : (lastWins Prod.fst [('a', 1), ('b', 2), ('a', 3), ('c', 4), ('b', 5)] : Run Empty _) =
    .ok [('a', 3), ('b', 5), ('c', 4)] := by
  decide

end LastWins

/-! ### What the files declare -/

section Load

variable {Daemon R α : Type} {isEscaped : Char → Bool}
  {parse : Text → Except Text (Document Daemon R)} {defaults : ∀ t, Tables Daemon t}

/-- The lists of the files, one behind the other. -/
def declared (list : Document Daemon R → Option (List α))
    (readings : List (Text × Document Daemon R)) : List α :=
  readings.flatMap fun reading => (list reading.2).getD []

/-- What was read goes over the configuration, file by file. -/
def mergeAll (defaults : ∀ t, Tables Daemon t) (config : Config Daemon R)
    (readings : List (Text × Document Daemon R)) : Config Daemon R :=
  readings.foldl (fun config reading => config.merge (reading.2.config defaults) reading.1) config

theorem blame_eq_ok {file : File} {x : Except Text α} {a : α} (h : file.blame x = .ok a) :
    x = .ok a := by
  cases x with
  | error e => cases h
  | ok b =>
    cases h
    rfl

theorem read_eq_ok {file : File} {text : Text} {doc : Document Daemon R}
    (h : file.read parse = .ok (text, doc)) :
    file.contents.toOption = some text ∧ (parse text).toOption = some doc := by
  obtain ⟨text', htext, hrest⟩ := Fallible.bind_eq_ok.mp h
  obtain ⟨doc', hdoc, hpair⟩ := Fallible.bind_eq_ok.mp hrest
  cases hpair
  rw [blame_eq_ok htext, blame_eq_ok hdoc]
  exact ⟨rfl, rfl⟩

theorem blame_safe (file : File) (x : Except Text α) :
    Safe (file.blame x) fun _ => True := by
  cases x with
  | error e => exact safe_fail _
  | ok a => exact safe_ok trivial

theorem read_safe (file : File) : Safe (file.read parse) fun _ => True := by
  refine (blame_safe file file.contents).bind fun text _ => ?_
  refine (blame_safe file (parse text)).bind fun doc _ => ?_
  exact safe_ok trivial

theorem readFiles_safe (config : Config Daemon R) (files : List File) :
    Safe (readFiles parse defaults config files) fun _ => True := by
  induction files generalizing config with
  | nil => exact safe_ok trivial
  | cons file files ih => exact (read_safe file).bind fun _ _ => ih _

theorem readFiles_eq_ok {config final : Config Daemon R} {files : List File}
    (h : readFiles parse defaults config files = .ok final) :
    ∃ readings, files.mapM (File.read parse) = .ok readings ∧
      final = mergeAll defaults config readings := by
  induction files generalizing config with
  | nil =>
    cases h
    exact ⟨[], rfl, rfl⟩
  | cons file files ih =>
    obtain ⟨⟨text, doc⟩, hread, hrest⟩ := Fallible.bind_eq_ok.mp h
    obtain ⟨readings, hreadings, rfl⟩ := ih hrest
    refine ⟨(text, doc) :: readings, ?_, rfl⟩
    rw [List.mapM_cons, hread, bind_ok, hreadings]
    rfl

theorem list_mergeAll (list : Config Daemon R → List α)
    (told : Document Daemon R → Option (List α))
    (hmerge : ∀ config doc raw,
      list (Config.merge config (doc.config defaults) raw) = list config ++ (told doc).getD [])
    (config : Config Daemon R) (readings : List (Text × Document Daemon R)) :
    list (mergeAll defaults config readings) = list config ++ declared told readings := by
  induction readings generalizing config with
  | nil => exact (List.append_nil _).symm
  | cons reading readings ih =>
    rw [mergeAll, List.foldl_cons, ← mergeAll, ih, hmerge, List.append_assoc, declared, declared,
      List.flatMap_cons]

/-- What is loaded of the drop-ins is what `readDropins` makes of their texts. -/
theorem readDropins_of_readFiles {config final : Config Daemon R} {files : List File}
    (h : readFiles parse defaults config files = .ok final) :
    ∃ texts, files.mapM (fun file => file.contents.toOption) = some texts ∧
      readDropins (fun text => (parse text).toOption) defaults config texts = some final := by
  induction files generalizing config with
  | nil =>
    cases h
    exact ⟨[], rfl, rfl⟩
  | cons file files ih =>
    obtain ⟨⟨text, doc⟩, hread, hrest⟩ := Fallible.bind_eq_ok.mp h
    obtain ⟨texts, htexts, hfinal⟩ := ih hrest
    obtain ⟨hcontents, hdoc⟩ := read_eq_ok hread
    refine ⟨text :: texts, ?_, ?_⟩
    · rw [List.mapM_cons, hcontents, htexts]
      rfl
    · rw [readDropins, readDropin, hdoc]
      exact hfinal

/-- **Loading does not go wrong**: it returns a configuration that `validate` passes, or
    the text of an error. -/
theorem load_safe (main : File) (dropins : List File) :
    Safe (load isEscaped parse defaults main dropins) fun config =>
      validate isEscaped config = .ok () := by
  rw [load]
  refine (read_safe main).bind fun reading _ => ?_
  refine (readFiles_safe _ dropins).bind fun merged _ => ?_
  simp only [lastWins_eq, bind_ok]
  split
  · rename_i hvalid
    exact safe_ok hvalid
  · exact safe_fail _

theorem load_eq_ok {main : File} {dropins : List File} {config : Config Daemon R}
    (h : load isEscaped parse defaults main dropins = .ok config) :
    ∃ readings, (main :: dropins).mapM (File.read parse) = .ok readings ∧
      config.backends = collapse Backend.name (declared Dropin.Document.backends readings) ∧
      config.identities =
        collapse IdentityRule.identity (declared Dropin.Document.identities readings) ∧
      config.prices =
        collapse Spend.ModelPrice.model (declared Dropin.Document.prices readings) := by
  obtain ⟨⟨text, doc⟩, hmain, hrest⟩ := Fallible.bind_eq_ok.mp h
  obtain ⟨merged, hmerged, hrest⟩ := Fallible.bind_eq_ok.mp hrest
  obtain ⟨readings, hreadings, rfl⟩ := readFiles_eq_ok hmerged
  simp only [lastWins_eq, bind_ok] at hrest
  split at hrest
  · cases hrest
    refine ⟨(text, doc) :: readings, ?_, ?_, ?_, ?_⟩
    · rw [List.mapM_cons, hmain, bind_ok, hreadings]
      rfl
    · exact congrArg (collapse Backend.name) (list_mergeAll Dropin.Config.backends
        Dropin.Document.backends (fun _ _ _ => rfl) (doc.config defaults) readings)
    · exact congrArg (collapse IdentityRule.identity) (list_mergeAll Dropin.Config.identities
        Dropin.Document.identities (fun _ _ _ => rfl) (doc.config defaults) readings)
    · exact congrArg (collapse Spend.ModelPrice.model) (list_mergeAll Dropin.Config.prices
        Dropin.Document.prices (fun _ _ _ => rfl) (doc.config defaults) readings)
  · cases hrest

/-- Where every drop-in is spelled plainly, each table that is loaded is that of the last
    file that has it. -/
theorem table_load {main : File} {dropins : List File} {config : Config Daemon R} (t : TableName)
    (h : load isEscaped parse defaults main dropins = .ok config) :
    ∃ text doc texts, main.read parse = .ok (text, doc) ∧
      dropins.mapM (fun file => file.contents.toOption) = some texts ∧
      ∀ docs, texts.mapM (fun text => (parse text).toOption) = some docs →
        List.Forall₂ SpelledPlainly docs texts →
        config.table t = lastTable t ((doc.config defaults).table t) docs := by
  obtain ⟨⟨text, doc⟩, hmain, hrest⟩ := Fallible.bind_eq_ok.mp h
  obtain ⟨merged, hmerged, hrest⟩ := Fallible.bind_eq_ok.mp hrest
  obtain ⟨texts, htexts, hread⟩ := readDropins_of_readFiles hmerged
  refine ⟨text, doc, texts, hmain, htexts, fun docs hdocs hplain => ?_⟩
  have htable : config.table t = merged.table t := by
    simp only [lastWins_eq, bind_ok] at hrest
    split at hrest
    · cases hrest
      rfl
    · cases hrest
  rw [htable]
  exact table_readDropins _ defaults t texts _ merged docs hdocs hplain hread

/-- What is declared last is what is found, and the backends are in the order in which
    their names are first declared. -/
structure Decided (readings : List (Text × Document Daemon R)) (config : Config Daemon R) :
    Prop where
  rule : ∀ identity, (policyOf config).ruleFor identity =
    lastOf IdentityRule.identity identity (declared Dropin.Document.identities readings)
  backend : ∀ name, config.backends.find? (fun backend => backend.name = name) =
    lastOf Backend.name name (declared Dropin.Document.backends readings)
  spec : ∀ name, specOf config.backends name =
    (lastOf Backend.name name (declared Dropin.Document.backends readings)).filter Backend.enabled
  price : ∀ model, Spend.priceFor config.prices model =
    (lastOf Spend.ModelPrice.model model (declared Dropin.Document.prices readings)).or
      (lastOf Spend.ModelPrice.model ['*'] (declared Dropin.Document.prices readings))
  order : LastKept Backend.name (declared Dropin.Document.backends readings) config.backends
  specsOrder : InOrder Backend.name (declared Dropin.Document.backends readings)
    (specs config.backends)

theorem load_decided {main : File} {dropins : List File} {config : Config Daemon R}
    (h : load isEscaped parse defaults main dropins = .ok config) :
    ∃ readings, (main :: dropins).mapM (File.read parse) = .ok readings ∧
      Decided readings config := by
  obtain ⟨readings, hreadings, hbackends, hidentities, hprices⟩ := load_eq_ok h
  have hkept := lastKept_collapse Backend.name (declared Dropin.Document.backends readings)
  rw [← hbackends] at hkept
  refine ⟨readings, hreadings, ?_⟩
  constructor
  case rule =>
    intro identity
    rw [AiDaemon.Config.ruleFor, policyOf, hidentities]
    exact find_collapse IdentityRule.identity identity _
  case backend =>
    intro name
    rw [hbackends]
    exact find_collapse Backend.name name _
  case spec =>
    intro name
    rw [specOf, specs, find_filter Backend.name hkept.distinct, hbackends, find_collapse]
  case price =>
    intro model
    rw [Spend.priceFor, hprices]
    exact congrArg₂ Option.or (find_collapse Spend.ModelPrice.model model _)
      (find_collapse Spend.ModelPrice.model ['*'] _)
  case order => exact hkept
  case specsOrder => exact List.Pairwise.filter _ hkept.inOrder

/-- **Declaring a name again overrides it in place.** `last_wins` keeps the last item of
    each key, in the place where the key came first, and a second run changes nothing.
    So what a loaded configuration has for a name is what the files declare last. -/
theorem redeclaration_overrides :
    (∀ {ε α κ : Type} [DecidableEq κ] (key : α → κ) (items : List α), ∃ kept,
      (lastWins key items : Run ε (List α)) = .ok kept ∧ LastKept key items kept ∧
        (lastWins key kept : Run ε (List α)) = .ok kept) ∧
    ∀ {Daemon R : Type} (isEscaped : Char → Bool)
      (parse : Text → Except Text (Document Daemon R)) (defaults : ∀ t, Tables Daemon t)
      (main : File) (dropins : List File) (config : Config Daemon R),
      load isEscaped parse defaults main dropins = .ok config →
        ∃ readings, (main :: dropins).mapM (File.read parse) = .ok readings ∧
          Decided readings config := by
  constructor
  · intro ε α κ _ key items
    refine ⟨collapse key items, lastWins_eq key items, lastKept_collapse key items, ?_⟩
    rw [lastWins_eq, collapse_collapse]
  · intro Daemon R isEscaped parse defaults main dropins config h
    exact load_decided h

end Load

/-! ### A drop-in that turns a backend off -/

def shippedTables : ∀ t, Tables Unit t
  | .daemon => ()
  | .policy => defaultPolicy
  | .scheduler => defaultScheduler
  | .attachments => Capacity.shippedBudget

def spawned (name : Text) (enabled : Bool) : Backend where
  name := name
  exec := "/b".toList
  connect := none
  args := []
  enabled := enabled
  env := ∅

/-- A document with backends alone. -/
def backendsOnly (backends : List Backend) : Document Unit Nat where
  table _ := none
  aliases := none
  backends := some backends
  prices := none
  identities := none

def mainText : Text := "backend = [\x7bname=\"a\",exec=\"/b\"\x7d]".toList

def offText : Text := "backend = [\x7bname=\"a\",exec=\"/b\",enabled=false\x7d]".toList

/-- What TOML makes of the two texts. -/
def parseBackends (text : Text) : Except Text (Document Unit Nat) :=
  if text = mainText then .ok (backendsOnly [spawned ['a'] true])
  else if text = offText then .ok (backendsOnly [spawned ['a'] false])
  else .error "not one of the two".toList

def mainFile : File := ⟨"c".toList, .ok mainText⟩

def offFile : File := ⟨"c.d/0.conf".toList, .ok offText⟩

/-- The two of them, with the backend once. -/
def turnedOff : Config Unit Nat :=
  { ((backendsOnly [spawned ['a'] true]).config shippedTables).merge
      ((backendsOnly [spawned ['a'] false]).config shippedTables) offText with
    backends := [spawned ['a'] false] }

theorem off_overrides :
    load (fun _ => false) parseBackends shippedTables mainFile [offFile] = .ok turnedOff ∧
      ∃ readings, [mainFile, offFile].mapM (File.read parseBackends) = .ok readings ∧
        Decided readings turnedOff :=
  ⟨rfl, redeclaration_overrides.2 (fun _ => false) parseBackends shippedTables mainFile [offFile]
    turnedOff rfl⟩

end AiDaemon.ConfigLoad
