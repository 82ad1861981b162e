import AiDaemon.Policy
import AiDaemon.Sched
import Mathlib.Data.List.AList

/-!
# Drop-ins (`config.rs`: `Config::merge` and the loop of `Config::load`)

A drop-in is parsed as a whole `Config`, in which a table that the text leaves
out has its default.  Which tables the text has is no longer told by that value,
and `merge` asks the text again: it looks for a line that begins with the header.

The parser is a parameter.  What it gives is a `Document`, where a table may be
absent; `Document.config` is the value that `merge` is handed.  The contents of a
table are not looked into.
-/

namespace AiDaemon.Dropin

open Ledger

/-- The tables that are replaced whole. -/
inductive TableName where
  | daemon
  | policy
  | scheduler
  | attachments
deriving DecidableEq

def TableName.name : TableName → Text
  | daemon => "daemon".toList
  | policy => "policy".toList
  | scheduler => "scheduler".toList
  | attachments => "attachments".toList

variable {Contents : TableName → Type} {Backend Price Rule : Type}

/-- `config::Config`. -/
structure Config (Contents : TableName → Type) (Backend Price Rule : Type) where
  table : ∀ t, Contents t
  aliases : Table Text Text
  backends : List Backend
  prices : List Price
  identities : List Rule

/-- What the parser finds in a text. -/
structure Document (Contents : TableName → Type) (Backend Price Rule : Type) where
  table : ∀ t, Option (Contents t)
  aliases : Option (Table Text Text)
  backends : Option (List Backend)
  prices : Option (List Price)
  identities : Option (List Rule)

/-- `#[serde(default)]`: what is absent has its default. -/
def Document.config (defaults : ∀ t, Contents t) (doc : Document Contents Backend Price Rule) :
    Config Contents Backend Price Rule where
  table t := (doc.table t).getD (defaults t)
  aliases := doc.aliases.getD ∅
  backends := doc.backends.getD []
  prices := doc.prices.getD []
  identities := doc.identities.getD []

@[simp] theorem Document.table_config (defaults : ∀ t, Contents t)
    (doc : Document Contents Backend Price Rule) (t : TableName) :
    (doc.config defaults).table t = (doc.table t).getD (defaults t) :=
  rfl

/-! ### The merge -/

def header (name : Text) : Text := '[' :: name ++ [']']

/-- The closure of `merge`: a line that begins with `[table]` or `[[table]]`. -/
def mentions (raw name : Text) : Bool :=
  raw.lines.any fun line =>
    (header name).isPrefixOf line.trim || (header (header name)).isPrefixOf line.trim

/-- `Config::merge`. -/
def Config.merge (base other : Config Contents Backend Price Rule) (raw : Text) :
    Config Contents Backend Price Rule where
  table t := if mentions raw t.name then other.table t else base.table t
  aliases :=
    if mentions raw "aliases".toList then extend base.aliases other.aliases else base.aliases
  backends := base.backends ++ other.backends
  prices := base.prices ++ other.prices
  identities := base.identities ++ other.identities

variable (parse : Text → Option (Document Contents Backend Price Rule))
  (defaults : ∀ t, Contents t)

/-- One turn of the loop of `load`. A text that does not parse ends it. -/
def readDropin (base : Config Contents Backend Price Rule) (raw : Text) :
    Option (Config Contents Backend Price Rule) :=
  (parse raw).map fun doc => base.merge (doc.config defaults) raw

/-- The loop of `load` over the files, in name order. -/
def readDropins (base : Config Contents Backend Price Rule) :
    List Text → Option (Config Contents Backend Price Rule)
  | [] => some base
  | raw :: raws => (readDropin parse defaults base raw).bind fun merged => readDropins merged raws

/-! ### Replacing what the document has -/

/-- Every table of the document replaces the one of the base, and no other does;
    the aliases of the document go over those of the base. -/
structure Replaces (base : Config Contents Backend Price Rule)
    (doc : Document Contents Backend Price Rule) (merged : Config Contents Backend Price Rule) :
    Prop where
  table : ∀ t, merged.table t = (doc.table t).getD (base.table t)
  aliases : ∀ name, merged.aliases.lookup name =
    ((doc.aliases.getD ∅).lookup name).or (base.aliases.lookup name)

/-- What the lines of the text tell of its tables is what the document has, or
    makes no difference to the base. -/
structure LinesTell (base : Config Contents Backend Price Rule)
    (doc : Document Contents Backend Price Rule) (raw : Text) : Prop where
  table : ∀ t, (mentions raw t.name = true ↔ (doc.table t).isSome = true) ∨
    base.table t = (doc.table t).getD (defaults t)
  aliases : mentions raw "aliases".toList = true ∨ ∀ name target,
    (doc.aliases.getD ∅).lookup name = some target → base.aliases.lookup name = some target

theorem table_merge_mentioned (base other : Config Contents Backend Price Rule) {raw : Text}
    {t : TableName} (h : mentions raw t.name = true) :
    (base.merge other raw).table t = other.table t :=
  if_pos h

theorem table_merge_unmentioned (base other : Config Contents Backend Price Rule) {raw : Text}
    {t : TableName} (h : ¬ mentions raw t.name = true) :
    (base.merge other raw).table t = base.table t :=
  if_neg h

theorem table_merge_iff (base : Config Contents Backend Price Rule)
    (doc : Document Contents Backend Price Rule) (raw : Text) (t : TableName) :
    (base.merge (doc.config defaults) raw).table t = (doc.table t).getD (base.table t) ↔
      (mentions raw t.name = true ↔ (doc.table t).isSome = true) ∨
        base.table t = (doc.table t).getD (defaults t) := by
  by_cases hmentions : mentions raw t.name = true
  · rw [table_merge_mentioned base _ hmentions, Document.table_config]
    rcases hdoc : doc.table t with _ | contents
    · simp [hmentions, eq_comm]
    · simp [hmentions]
  · rw [table_merge_unmentioned base _ hmentions]
    rcases hdoc : doc.table t with _ | contents
    · simp [hmentions]
    · simp [hmentions]

/-- Over a map that already has its entries a map changes nothing. -/
theorem or_eq_right_iff (above below : Option Text) :
    below = above.or below ↔ ∀ target, above = some target → below = some target := by
  rcases above with _ | target
  · simp
  · simp

theorem aliases_merge_iff (base : Config Contents Backend Price Rule)
    (doc : Document Contents Backend Price Rule) (raw : Text) :
    (∀ name, (base.merge (doc.config defaults) raw).aliases.lookup name =
        ((doc.aliases.getD ∅).lookup name).or (base.aliases.lookup name)) ↔
      mentions raw "aliases".toList = true ∨ ∀ name target,
        (doc.aliases.getD ∅).lookup name = some target →
          base.aliases.lookup name = some target := by
  simp only [Config.merge, Document.config]
  by_cases hmentions : mentions raw "aliases".toList = true
  · rw [if_pos hmentions]
    exact ⟨fun _ => .inl hmentions, fun _ name => lookup_extend _ _ name⟩
  · rw [if_neg hmentions]
    simp only [hmentions, or_eq_right_iff, false_or, Bool.false_eq_true]

theorem merge_replaces (base : Config Contents Backend Price Rule)
    (doc : Document Contents Backend Price Rule) (raw : Text) :
    Replaces base doc (base.merge (doc.config defaults) raw) ↔
      LinesTell defaults base doc raw := by
  constructor
  · intro h
    exact ⟨fun t => (table_merge_iff defaults base doc raw t).1 (h.table t),
      (aliases_merge_iff defaults base doc raw).1 h.aliases⟩
  · intro h
    exact ⟨fun t => (table_merge_iff defaults base doc raw t).2 (h.table t),
      (aliases_merge_iff defaults base doc raw).2 h.aliases⟩

/-- A drop-in that parses replaces exactly the tables it contains, if and only if
    its lines tell which tables these are. -/
theorem dropin_replaces_iff (base : Config Contents Backend Price Rule) (raw : Text)
    (doc : Document Contents Backend Price Rule) (hparse : parse raw = some doc) :
    ∃ merged, readDropin parse defaults base raw = some merged ∧
      (Replaces base doc merged ↔ LinesTell defaults base doc raw) := by
  refine ⟨base.merge (doc.config defaults) raw, ?_, merge_replaces defaults base doc raw⟩
  rw [readDropin, hparse]
  rfl

/-! ### Three drop-ins -/

/-- Two of the tables with their contents. -/
def Sample : TableName → Type
  | .policy => PolicyConfig
  | .scheduler => Sched.Config
  | .daemon | .attachments => Unit

/-- `Scheduler::default`. -/
def defaultScheduler : Sched.Config where
  kvBudgetBytes := 2 * 1024 * 1024 * 1024
  maxConcurrentInteractive := 2
  maxConcurrentBackground := 1
  budget_toml := by decide

def sampleDefaults : ∀ t, Sample t
  | .policy => defaultPolicy
  | .scheduler => defaultScheduler
  | .daemon | .attachments => ()

/-- A document with the policy alone. -/
def policyOnly (policy : PolicyConfig) : Document Sample Unit Unit Unit where
  table
    | .policy => some policy
    | .daemon | .scheduler | .attachments => none
  aliases := none
  backends := none
  prices := none
  identities := none

def plain : Text := "[policy]\nallowed_models = []\n".toList

def spaced : Text := "[ policy ]\nallowed_models = []\n".toList

def quoted : Text := "[policy]\nprelude = '''\n[scheduler]\n'''\n".toList

def noModels : PolicyConfig := { defaultPolicy with allowedModels := [] }

def quotedPrelude : PolicyConfig := { defaultPolicy with prelude := "[scheduler]\n".toList }

/-- What TOML makes of the three texts. -/
def parseSample (raw : Text) : Option (Document Sample Unit Unit Unit) :=
  if raw = plain ∨ raw = spaced then some (policyOnly noModels)
  else if raw = quoted then some (policyOnly quotedPrelude)
  else none

/-- A base whose scheduler runs one session at a time. -/
def sampleBase : Config Sample Unit Unit Unit where
  table
    | .policy => defaultPolicy
    | .scheduler => { defaultScheduler with maxConcurrentInteractive := 1 }
    | .daemon | .attachments => ()
  aliases := ∅
  backends := []
  prices := []
  identities := []

theorem plain_replaces : parseSample plain = some (policyOnly noModels) ∧
    ∃ merged, readDropin parseSample sampleDefaults sampleBase plain = some merged ∧
      (Replaces sampleBase (policyOnly noModels) merged ↔
        LinesTell sampleDefaults sampleBase (policyOnly noModels) plain) :=
  ⟨rfl, dropin_replaces_iff parseSample sampleDefaults sampleBase plain (policyOnly noModels) rfl⟩

/-- The table with blanks in its header is ignored, and the one named inside a
    string is reset. -/
theorem spaced_ignored :
    (∃ doc merged, parseSample spaced = some doc ∧
      readDropin parseSample sampleDefaults sampleBase spaced = some merged ∧
      doc.table .policy = some noModels ∧
      merged.table .policy = defaultPolicy ∧ ¬ Replaces sampleBase doc merged) ∧
    ∃ doc merged, parseSample quoted = some doc ∧
      readDropin parseSample sampleDefaults sampleBase quoted = some merged ∧
      doc.table .scheduler = none ∧
      merged.table .scheduler = defaultScheduler ∧ ¬ Replaces sampleBase doc merged := by
  have hspaced : mentions spaced (TableName.name .policy) = false := by decide
  have hquoted : mentions quoted (TableName.name .scheduler) = true := by decide
  constructor
  · refine ⟨policyOnly noModels, sampleBase.merge ((policyOnly noModels).config sampleDefaults)
      spaced, rfl, rfl, rfl, ?_, ?_⟩
    · have hignored : ¬ mentions spaced (TableName.name .policy) = true := by simp [hspaced]
      exact table_merge_unmentioned _ _ hignored
    · intro h
      have hkept := (table_merge_iff sampleDefaults sampleBase (policyOnly noModels)
        spaced .policy).1 (h.table .policy)
      rw [hspaced] at hkept
      rcases hkept with htold | hsame
      · exact absurd (htold.2 rfl) (by decide)
      · have hmodels : defaultPolicy.allowedModels = [] := congrArg PolicyConfig.allowedModels hsame
        exact absurd hmodels (by decide)
  · refine ⟨policyOnly quotedPrelude, sampleBase.merge
      ((policyOnly quotedPrelude).config sampleDefaults) quoted, rfl, rfl, rfl, ?_, ?_⟩
    · exact table_merge_mentioned _ _ hquoted
    · intro h
      have hreset := (table_merge_iff sampleDefaults sampleBase
        (policyOnly quotedPrelude) quoted .scheduler).1 (h.table .scheduler)
      rcases hreset with htold | hsame
      · exact absurd (htold.1 hquoted) (by decide)
      · have hrunning : (1 : UInt32) = 2 :=
          congrArg Sched.Config.maxConcurrentInteractive hsame
        exact absurd hrunning (by decide)

/-! ### A whole directory -/

/-- Every header of the text stands on a line of its own, spelled plainly. -/
structure SpelledPlainly (doc : Document Contents Backend Price Rule) (raw : Text) : Prop where
  table : ∀ t, mentions raw t.name = true ↔ (doc.table t).isSome = true
  aliases : mentions raw "aliases".toList = true ∨ doc.aliases = none

theorem SpelledPlainly.linesTell {doc : Document Contents Backend Price Rule} {raw : Text}
    (h : SpelledPlainly doc raw) (base : Config Contents Backend Price Rule) :
    LinesTell defaults base doc raw := by
  refine ⟨fun t => .inl (h.table t), ?_⟩
  rcases h.aliases with hmentions | hnone
  · exact .inl hmentions
  · refine .inr fun name target htarget => ?_
    rw [hnone] at htarget
    simp at htarget

/-- The table as the documents leave it, the last that has it deciding. -/
def lastTable (t : TableName) (start : Contents t)
    (docs : List (Document Contents Backend Price Rule)) : Contents t :=
  docs.foldl (fun contents doc => (doc.table t).getD contents) start

/-- Where every drop-in is spelled plainly, each table is that of the last file
    that has it, whatever the others say. -/
theorem table_readDropins (t : TableName) (raws : List Text) :
    ∀ (base final : Config Contents Backend Price Rule)
      (docs : List (Document Contents Backend Price Rule)),
      raws.mapM parse = some docs → List.Forall₂ SpelledPlainly docs raws →
      readDropins parse defaults base raws = some final →
      final.table t = lastTable t (base.table t) docs := by
  induction raws with
  | nil =>
    intro base final docs hdocs hplain hfinal
    obtain rfl : [] = docs := by simpa using hdocs
    obtain rfl : base = final := by simpa [readDropins] using hfinal
    rfl
  | cons raw raws ih =>
    intro base final docs hdocs hplain hfinal
    rw [List.mapM_cons] at hdocs
    obtain ⟨doc, hdoc, hdocs⟩ := Option.bind_eq_some_iff.1 hdocs
    obtain ⟨rest, hrest, hdocs⟩ := Option.bind_eq_some_iff.1 hdocs
    obtain rfl : doc :: rest = docs := by simpa using hdocs
    obtain ⟨hhead, htail⟩ := List.forall₂_cons.1 hplain
    obtain ⟨merged, hmerged, hfinal⟩ := Option.bind_eq_some_iff.1 hfinal
    obtain ⟨merged', hmerged', hiff⟩ := dropin_replaces_iff parse defaults base raw doc hdoc
    obtain rfl : merged = merged' := Option.some.inj (hmerged.symm.trans hmerged')
    rw [ih merged final rest hrest htail hfinal, (hiff.2 (hhead.linesTell defaults base)).table t]
    rfl

end AiDaemon.Dropin
