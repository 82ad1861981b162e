import AiDaemon.AuditRun
import AiDaemon.JournalFormat

/-!
# Records in the journal (`audit.rs`: `journal_payload`)

Every field is written with its length, so what is in a value is nothing to the
reader of the entry: the payload parses to its last byte, and the fields are the
fixed ones and one for every optional that is present (`journal_decodes`).
-/

namespace AiDaemon.Audit

open JournalFormat (toLe parse)

/-- `i32::to_string`. -/
def i32Text (i : Int32) : Text :=
  match i.toInt with
  | .ofNat n => Text.ofNat n
  | .negSucc n => '-' :: Text.ofNat (n + 1)

/-- `u64::to_string`. -/
def u64Text (n : UInt64) : Text := Text.ofNat n.toNat

def boolText (b : Bool) : Text := if b then "true".toList else "false".toList

/-- The line a reader sees. -/
def Record.message (record : Record) : Text :=
  "audit ".toList ++ record.event ++ " identity=".toList ++ record.identity ++
    " model=".toList ++ record.model.getD "-".toList ++ " tokens=".toList ++
    u64Text (record.promptTokens.getD 0) ++ "/".toList ++ u64Text (record.completionTokens.getD 0)

/-- The closure `field`. -/
def journalField (name : String) (value : Text) : Bytes :=
  asBytes name.toList ++ newline :: (toLe 8 value.byteLen ++ (asBytes value ++ [newline]))

def journalOptional (name : String) (value : Option Text) : Bytes :=
  match value with
  | some value => journalField name value
  | none => []

/-- `journal_payload`. -/
def journalPayload (record : Record) : Bytes :=
  journalField "MESSAGE" record.message ++
  journalField "PRIORITY" "6".toList ++
  journalField "SYSLOG_IDENTIFIER" "ai-daemon".toList ++
  journalField "AI_EVENT" record.event ++
  journalField "AI_IDENTITY" record.identity ++
  journalField "AI_CLASS" record.cls ++
  journalField "AI_UID" (Text.ofNat record.uid.toNat) ++
  journalField "AI_PID" (i32Text record.pid) ++
  journalOptional "AI_SESSION" record.session ++
  journalOptional "AI_MODEL" record.model ++
  journalOptional "AI_DIGEST" record.digest ++
  journalOptional "AI_LOCAL" (record.isLocal.map boolText) ++
  journalOptional "AI_PROMPT_TOKENS" (record.promptTokens.map u64Text) ++
  journalOptional "AI_COMPLETION_TOKENS" (record.completionTokens.map u64Text) ++
  journalOptional "AI_ATTACHMENT_BYTES" (record.attachmentBytes.map u64Text) ++
  journalOptional "AI_DETAIL" record.detail

/-! ### What an entry should say -/

/-- The names a query may use. -/
inductive JournalName where
  | message
  | priority
  | syslogIdentifier
  | event
  | identity
  | cls
  | uid
  | pid
  | session
  | model
  | digest
  | isLocal
  | promptTokens
  | completionTokens
  | attachmentBytes
  | detail
deriving DecidableEq

namespace JournalName

def text : JournalName → String
  | message => "MESSAGE"
  | priority => "PRIORITY"
  | syslogIdentifier => "SYSLOG_IDENTIFIER"
  | event => "AI_EVENT"
  | identity => "AI_IDENTITY"
  | cls => "AI_CLASS"
  | uid => "AI_UID"
  | pid => "AI_PID"
  | session => "AI_SESSION"
  | model => "AI_MODEL"
  | digest => "AI_DIGEST"
  | isLocal => "AI_LOCAL"
  | promptTokens => "AI_PROMPT_TOKENS"
  | completionTokens => "AI_COMPLETION_TOKENS"
  | attachmentBytes => "AI_ATTACHMENT_BYTES"
  | detail => "AI_DETAIL"

def all : List JournalName :=
  [message, priority, syslogIdentifier, event, identity, cls, uid, pid, session, model, digest,
    isLocal, promptTokens, completionTokens, attachmentBytes, detail]

def bytes (name : JournalName) : Bytes := asBytes name.text.toList

end JournalName

/-- What the record has for a name. -/
def Record.has (record : Record) : JournalName → Option Text
  | .message => some record.message
  | .priority => some "6".toList
  | .syslogIdentifier => some "ai-daemon".toList
  | .event => some record.event
  | .identity => some record.identity
  | .cls => some record.cls
  | .uid => some (Text.ofNat record.uid.toNat)
  | .pid => some (i32Text record.pid)
  | .session => record.session
  | .model => record.model
  | .digest => record.digest
  | .isLocal => record.isLocal.map boolText
  | .promptTokens => record.promptTokens.map u64Text
  | .completionTokens => record.completionTokens.map u64Text
  | .attachmentBytes => record.attachmentBytes.map u64Text
  | .detail => record.detail

/-- No text in memory is longer than `isize::MAX`. -/
def Record.Held (record : Record) : Prop :=
  ∀ name value, record.has name = some value → value.byteLen < 2 ^ 63

/-- The fields are those the record has something for, each once. -/
structure Decodes (record : Record) (fields : List JournalFormat.Field) : Prop where
  once : (fields.map JournalFormat.Field.name).Nodup
  exact : ∀ field, field ∈ fields ↔ ∃ name value, record.has name = some value ∧
    field = ⟨name.bytes, asBytes value⟩

/-! ### Fields in order -/

def Record.entry (record : Record) (name : JournalName) : Option JournalFormat.Field :=
  (record.has name).map fun value => ⟨name.bytes, asBytes value⟩

def Record.entries (record : Record) : List JournalFormat.Field :=
  JournalName.all.filterMap record.entry

theorem length_asBytes (text : Text) : (asBytes text).length = text.byteLen := by
  simp [asBytes, List.length_flatMap, Text.byteLen]

theorem sized_eq (name : JournalName) (value : Text) :
    JournalFormat.Field.sized ⟨name.bytes, asBytes value⟩ = journalField name.text value := by
  rw [JournalFormat.Field.sized, length_asBytes]
  rfl

theorem mem_all (name : JournalName) : name ∈ JournalName.all := by
  cases name <;> decide

theorem flatMap_entries (record : Record) (names : List JournalName) :
    (names.filterMap record.entry).flatMap JournalFormat.Field.sized =
      names.flatMap fun name => journalOptional name.text (record.has name) := by
  induction names with
  | nil => rfl
  | cons name names ih =>
    rw [List.flatMap_cons, ← ih]
    cases hvalue : record.has name with
    | none =>
      have hentry : record.entry name = none := by rw [Record.entry, hvalue, Option.map_none]
      rw [List.filterMap_cons_none hentry, journalOptional, List.nil_append]
    | some value =>
      have hentry : record.entry name = some ⟨name.bytes, asBytes value⟩ := by
        rw [Record.entry, hvalue, Option.map_some]
      rw [List.filterMap_cons_some hentry, List.flatMap_cons, sized_eq, journalOptional]

/-- The payload is the entries, one after another. -/
theorem journalPayload_eq (record : Record) :
    journalPayload record = record.entries.flatMap JournalFormat.Field.sized := by
  rw [Record.entries, flatMap_entries, JournalName.all]
  simp only [List.flatMap_cons, List.flatMap_nil, List.append_nil, journalPayload,
    List.append_assoc]
  rfl

theorem asBytes_injective : Function.Injective asBytes := by
  intro text text' h
  have hread := congrArg readToString h
  rw [readToString_asBytes, readToString_asBytes, Except.ok.injEq] at hread
  exact hread

theorem journalName_text_injective {name name' : JournalName} (h : name.text = name'.text) :
    name = name' := by
  have hall : ∀ name ∈ JournalName.all, ∀ name' ∈ JournalName.all,
      name.text = name'.text → name = name' := by decide
  exact hall name (mem_all name) name' (mem_all name') h

theorem journalName_bytes_injective {name name' : JournalName} (h : name.bytes = name'.bytes) :
    name = name' :=
  journalName_text_injective (String.toList_inj.mp (asBytes_injective h))

/-- No name has a line feed or an equals sign in it. -/
theorem journalName_plain (name : JournalName) :
    JournalFormat.newline ∉ name.bytes ∧ JournalFormat.equals ∉ name.bytes := by
  cases name <;> decide

theorem entries_sendable {record : Record} (h : record.Held) :
    ∀ field ∈ record.entries, field.Sendable := by
  intro field hfield
  obtain ⟨name, -, hentry⟩ := List.mem_filterMap.mp hfield
  obtain ⟨value, hvalue, rfl⟩ := Option.map_eq_some_iff.mp hentry
  have hlength := h name value hvalue
  refine ⟨(journalName_plain name).1, (journalName_plain name).2, ?_⟩
  show (asBytes value).length < 256 ^ 8
  rw [length_asBytes]
  omega

theorem entries_once (record : Record) :
    (record.entries.map JournalFormat.Field.name).Nodup := by
  rw [Record.entries, List.map_filterMap]
  apply List.Nodup.filterMap _ (by decide : JournalName.all.Nodup)
  intro name name' bytes hname hname'
  have hbytes : ∀ {name : JournalName},
      bytes ∈ (record.entry name).map JournalFormat.Field.name → name.bytes = bytes := by
    intro name hmem
    obtain ⟨field, hentry, hsame⟩ := Option.map_eq_some_iff.mp hmem
    obtain ⟨value, -, rfl⟩ := Option.map_eq_some_iff.mp hentry
    exact hsame
  exact journalName_bytes_injective ((hbytes hname).trans (hbytes hname').symm)

/-- **What is recorded is what is read.** -/
theorem journal_decodes {record : Record} (h : record.Held) :
    ∃ fields, parse (journalPayload record) = some fields ∧ Decodes record fields := by
  refine ⟨record.entries, ?_, ?_⟩
  · rw [journalPayload_eq]
    exact JournalFormat.parse_sized (entries_sendable h)
  · constructor
    · exact entries_once record
    · intro field
      rw [Record.entries, List.mem_filterMap]
      constructor
      · rintro ⟨name, -, hentry⟩
        obtain ⟨value, hvalue, rfl⟩ := Option.map_eq_some_iff.mp hentry
        exact ⟨name, value, hvalue, rfl⟩
      · rintro ⟨name, value, hvalue, rfl⟩
        exact ⟨name, mem_all name, by rw [Record.entry, hvalue, Option.map_some]⟩

/-- A refusal whose text looks like fields. -/
def forged : Record where
  atSecs := 0
  event := "denied".toList
  identity := "id\nAI_UID=0".toList
  cls := "native".toList
  uid := 1000
  pid := -1
  session := none
  model := some "chat".toList
  digest := none
  isLocal := none
  promptTokens := none
  completionTokens := none
  attachmentBytes := none
  detail := some "\nAI_CLASS\n".toList
  prev := none

theorem forged_held : forged.Held := by
  have hall : ∀ name ∈ JournalName.all,
      ((forged.has name).all fun value => decide (value.byteLen < 2 ^ 63)) = true := by decide
  intro name value h
  have hheld := hall name (mem_all name)
  rw [h, Option.all_some, decide_eq_true_eq] at hheld
  exact hheld

/-- It adds no field and changes none. -/
theorem forged_decodes :
    ∃ fields, parse (journalPayload forged) = some fields ∧ Decodes forged fields :=
  journal_decodes forged_held

end AiDaemon.Audit
