import AiDaemon.HashChain
import AiDaemon.JsonWrite

/-!
# The audit file (`audit.rs`: `Record`, `hash_line`, `head_of`, `verify`)

One JSON object a line, and in each the hash of the line before it.  The hash is
a parameter, `hashLine`, and so is what `serde_json` says of a line it cannot
read; the JSON itself is the one of `Json`.

A file is what `read_to_string` makes of it: lines as `str::lines` cuts them, of
which blank ones are skipped.  `records` are the others, and `verify_eq_ok` says
what the verifier accepts: every record parses, the links hold, and the count is
theirs.  `aidctl` has its own copy of the verifier, translated on its own
(`Aidctl.verifyLines`).
-/

namespace AiDaemon.Audit

open Json HashChain

/-! ### Records -/

structure Record where
  atSecs : UInt64
  event : Text
  identity : Text
  cls : Text
  uid : UInt32
  pid : Int32
  session : Option Text
  model : Option Text
  digest : Option Text
  isLocal : Option Bool
  promptTokens : Option UInt64
  completionTokens : Option UInt64
  attachmentBytes : Option UInt64
  detail : Option Text
  prev : Option Text
deriving DecidableEq, Repr

variable {F : Type}

def ofU64 (n : UInt64) : Value F := .num (.posInt n)

def ofI32 (i : Int32) : Value F :=
  match h : i.toInt with
  | .ofNat n => .num (.posInt (.ofNat n))
  | .negSucc n => .num (.negInt ⟨n, by have := i.le_toInt; omega⟩)

/-- A field that is left out when there is nothing in it. -/
def field {α : Type} (name : String) (ofValue : α → Value F) (value : Option α) :
    List (Text × Value F) :=
  (value.map fun v => (name.toList, ofValue v)).toList

/-- The fields a caller sets, in the order of the struct. -/
def Record.fields (record : Record) : List (Text × Value F) :=
  [("at".toList, ofU64 record.atSecs), ("event".toList, .str record.event),
    ("identity".toList, .str record.identity), ("class".toList, .str record.cls),
    ("uid".toList, ofU64 record.uid.toUInt64), ("pid".toList, ofI32 record.pid)] ++
  field "session" .str record.session ++ field "model" .str record.model ++
  field "digest" .str record.digest ++ field "local" .bool record.isLocal ++
  field "prompt_tokens" ofU64 record.promptTokens ++
  field "completion_tokens" ofU64 record.completionTokens ++
  field "attachment_bytes" ofU64 record.attachmentBytes ++
  field "detail" .str record.detail

/-- The members of a record's object.  The link is last in the struct and so
    last on the line. -/
def Record.members (record : Record) : List (Text × Value F) :=
  record.fields ++ field "prev" .str record.prev

variable (floats : Floats F)

/-- The line of a record: `serde_json::to_string`. -/
def Record.line (record : Record) : Text := write floats (.obj record.members)

/-! ### Lines -/

def isBlankLine (line : Text) : Bool := line.trim = []

/-- The link a line carries, where it is a record that carries one. -/
def carried (line : Text) : Option Text :=
  (fromStr floats line).bind fun record => (record.get "prev".toList).bind Value.asStr

variable (hashLine : Text → Text)

/-- `head_of`, of a file that could be read. -/
def headOf (text : Text) : Option Text :=
  (text.lines.reverse.find? fun line => !isBlankLine line).bind fun last =>
    (fromStr floats last).map fun _ => hashLine last

/-! ### The verifier -/

/-- How a verifier stops: with a message, or in the middle of making one. -/
inductive Fault where
  | message (text : Text)
  | panicked
deriving DecidableEq, Repr

/-- `&text[..n]`, which panics inside a character. -/
def sliceTo : Nat → Text → Option Text
  | 0, _ => some []
  | _ + 1, [] => none
  | n + 1, c :: cs =>
    if c.utf8Size ≤ n + 1 then (sliceTo (n + 1 - c.utf8Size) cs).map (c :: ·) else none

/-- The first sixteen bytes of a hash, in a message. -/
def clipped (hash : Text) (message : Text → Text) : Fault :=
  match sliceTo (min 16 hash.byteLen) hash with
  | some start => .message (message start)
  | none => .panicked

def numbered (number : Nat) (rest : String) : Text :=
  "line ".toList ++ Text.ofNat number ++ rest.toList

def notARecord (number : Nat) (e : Text) : Fault :=
  .message (numbered number " is not a record: " ++ e)

def missingBefore (number : Nat) (p : Text) : Fault :=
  clipped p fun start => numbered number " claims to follow " ++ start ++
    " but it is the first record in this file — everything before it is missing".toList

def noLink (number : Nat) : Fault :=
  .message (numbered number (" carries no link, so the chain restarts here — a record " ++
    "written by something that did not know about the chain, or a splice"))

def brokenLink (number : Nat) (want got : Text) : Fault :=
  match sliceTo (min 16 want.byteLen) want with
  | none => .panicked
  | some wanted => clipped got fun start => numbered number " follows " ++ start ++
      " but the record before it hashes to ".toList ++ wanted ++
      " — something between them was changed, removed or reordered".toList

variable (parseError : Text → Text)

/-- The loop of `verify`, from line `number` on. -/
def verifyLines : Nat → Option Text → Nat → List Text → Except Fault Nat
  | _, _, checked, [] => .ok checked
  | number, expected, checked, line :: lines =>
    if isBlankLine line then verifyLines (number + 1) expected checked lines
    else
      match fromStr floats line with
      | none => .error (notARecord number (parseError line))
      | some record =>
        match expected, (record.get "prev".toList).bind Value.asStr with
        | none, none => verifyLines (number + 1) (some (hashLine line)) (checked + 1) lines
        | none, some p => .error (missingBefore number p)
        | some _, none => .error (noLink number)
        | some want, some got =>
          if want ≠ got then .error (brokenLink number want got)
          else verifyLines (number + 1) (some (hashLine line)) (checked + 1) lines

/-- `verify`, over what reading the file gave. -/
def verify (path : Text) (read : Except Text Text) : Except Fault Nat :=
  match read with
  | .error e => .error (.message ("reading ".toList ++ path ++ ": ".toList ++ e))
  | .ok text => verifyLines floats hashLine parseError 1 none 0 text.lines

namespace Aidctl

/-- The loop of `ai_daemon_audit_verify`, the copy in `aidctl`. -/
def verifyLines : Nat → Option Text → Nat → List Text → Except Fault Nat
  | _, _, checked, [] => .ok checked
  | number, expected, checked, line :: lines =>
    if isBlankLine line then verifyLines (number + 1) expected checked lines
    else
      match fromStr floats line with
      | none => .error (.message (numbered number " is not a record: " ++ parseError line))
      | some record =>
        match expected, (record.get "prev".toList).bind Value.asStr with
        | none, none => verifyLines (number + 1) (some (hashLine line)) (checked + 1) lines
        | none, some p =>
          .error (clipped p fun start => numbered number " claims to follow " ++ start ++
            " but it is the first record in this file — everything before it is missing".toList)
        | some _, none =>
          .error (.message (numbered number
            (" carries no link, so the chain restarts here — a record " ++
              "written by something that did not know about the chain, or a splice")))
        | some want, some got =>
          if want ≠ got then
            .error (match sliceTo (min 16 want.byteLen) want with
              | none => .panicked
              | some wanted => clipped got fun start => numbered number " follows " ++ start ++
                  " but the record before it hashes to ".toList ++ wanted ++
                  " — something between them was changed, removed or reordered".toList)
          else verifyLines (number + 1) (some (hashLine line)) (checked + 1) lines

def verify (path : Text) (read : Except Text Text) : Except Fault Nat :=
  match read with
  | .error e => .error (.message ("reading ".toList ++ path ++ ": ".toList ++ e))
  | .ok text => verifyLines floats hashLine parseError 1 none 0 text.lines

end Aidctl

/-! ### What is accepted -/

/-- The lines of a file that are not blank. -/
def records (text : Text) : List Text := text.lines.filter fun line => !isBlankLine line

/-- A whole chain: every line parses, and each carries what it has to. -/
def Chained (expected : Option Text) (lines : List Text) : Prop :=
  (∀ line ∈ lines, (fromStr floats line).isSome) ∧ Linked hashLine (carried floats) expected lines

variable {floats hashLine parseError}

theorem chained_cons {expected : Option Text} {line : Text} {lines : List Text} :
    Chained floats hashLine expected (line :: lines) ↔
      ((fromStr floats line).isSome ∧ carried floats line = expected) ∧
        Chained floats hashLine (some (hashLine line)) lines := by
  simp only [Chained, List.mem_cons, forall_eq_or_imp, Linked]
  tauto

/-- A line that is a record is passed when it carries what is expected. -/
theorem verifyLines_cons {number checked n : Nat} {expected : Option Text} {line : Text}
    {lines : List Text} (hblank : isBlankLine line = false) :
    verifyLines floats hashLine parseError number expected checked (line :: lines) = .ok n ↔
      ((fromStr floats line).isSome ∧ carried floats line = expected) ∧
        verifyLines floats hashLine parseError (number + 1) (some (hashLine line)) (checked + 1)
          lines = .ok n := by
  rw [verifyLines, hblank, carried]
  cases hparse : fromStr floats line with
  | none => simp
  | some record =>
    simp only [Bool.false_eq_true, if_false, Option.isSome_some, Option.bind_some, true_and]
    cases hlink : (record.get "prev".toList).bind Value.asStr with
    | none =>
      cases expected with
      | none => simp
      | some want => simp
    | some got =>
      cases expected with
      | none => simp
      | some want =>
        by_cases hsame : want = got
        · simp [hsame]
        · simp [hsame, Ne.symm hsame]

/-- **What a run of lines is accepted as.** -/
theorem verifyLines_eq_ok {number checked n : Nat} {expected : Option Text} {lines : List Text} :
    verifyLines floats hashLine parseError number expected checked lines = .ok n ↔
      Chained floats hashLine expected (lines.filter fun line => !isBlankLine line) ∧
        n = checked + (lines.filter fun line => !isBlankLine line).length := by
  induction lines generalizing number expected checked with
  | nil =>
    have hnil : Chained floats hashLine expected [] := ⟨by simp, trivial⟩
    simp only [verifyLines, Except.ok.injEq, List.filter_nil, List.length_nil, Nat.add_zero, hnil,
      true_and]
    exact eq_comm
  | cons line lines ih =>
    cases hblank : isBlankLine line with
    | true =>
      rw [verifyLines, hblank, if_pos rfl, ih, List.filter_cons_of_neg (by simp [hblank])]
    | false =>
      rw [verifyLines_cons hblank, ih, List.filter_cons_of_pos (by simp [hblank]), chained_cons,
        List.length_cons, Nat.add_right_comm, Nat.add_assoc]
      exact and_assoc.symm

theorem verify_eq_ok {path text : Text} {n : Nat} :
    verify floats hashLine parseError path (.ok text) = .ok n ↔
      Chained floats hashLine none (records text) ∧ n = (records text).length := by
  rw [verify, verifyLines_eq_ok, records, Nat.zero_add]

theorem Aidctl.verifyLines_eq (number : Nat) (expected : Option Text) (checked : Nat)
    (lines : List Text) :
    Aidctl.verifyLines floats hashLine parseError number expected checked lines =
      Audit.verifyLines floats hashLine parseError number expected checked lines := by
  induction lines generalizing number expected checked with
  | nil => rfl
  | cons line lines ih =>
    simp only [Aidctl.verifyLines, Audit.verifyLines, ih]
    rfl

/-- The two verifiers answer alike, message for message. -/
theorem Aidctl.verify_eq (path : Text) (read : Except Text Text) :
    Aidctl.verify floats hashLine parseError path read =
      Audit.verify floats hashLine parseError path read := by
  cases read with
  | error e => rfl
  | ok text => exact Aidctl.verifyLines_eq _ _ _ _

/-! ### The line of a record -/

theorem mem_field {α : Type} {name : String} {ofValue : α → Value F} {value : Option α}
    {member : Text × Value F} :
    member ∈ field name ofValue value ↔
    ∃ v, value = some v ∧ member = (name.toList, ofValue v) := by
  cases value with
  | none => simp [field]
  | some v => simp [field]

theorem ofI32_eq_num (i : Int32) : ∃ n, (ofI32 i : Value F) = .num n := by
  unfold ofI32
  split
  · exact ⟨_, rfl⟩
  · exact ⟨_, rfl⟩

/-- Every field is a scalar, and none is called `prev`. -/
theorem fields_scalar (record : Record) :
    ∀ member ∈ (record.fields : List (Text × Value F)),
      member.1 ≠ "prev".toList ∧ member.2.normal = member.2 ∧ member.2.nesting = 0 := by
  intro member hmember
  simp only [Record.fields, List.mem_append, List.mem_cons, List.not_mem_nil, or_false,
    mem_field] at hmember
  obtain ⟨n, hpid⟩ := ofI32_eq_num (F := F) record.pid
  rw [hpid] at hmember
  rcases hmember with (((((((h | h) | h) | h) | h) | h) | h) | h) | h
  · rcases h with rfl | rfl | rfl | rfl | rfl | rfl
    all_goals exact ⟨by dsimp only; decide, rfl, rfl⟩
  all_goals
    obtain ⟨v, -, rfl⟩ := h
    exact ⟨by dsimp only; decide, rfl, rfl⟩

theorem members_scalar (record : Record) :
    ∀ member ∈ (record.members : List (Text × Value F)),
      member.2.normal = member.2 ∧ member.2.nesting = 0 := by
  intro member hmember
  rcases List.mem_append.mp hmember with h | h
  · exact (fields_scalar record member h).2
  · obtain ⟨p, -, rfl⟩ := mem_field.mp h
    exact ⟨rfl, rfl⟩

theorem lookup_eq_none {key : Text} {members : List (Text × Value F)}
    (h : ∀ member ∈ members, member.1 ≠ key) : lookup key members = none := by
  have hnone : members.find? (fun member => decide (member.1 = key)) = none := by
    rw [List.find?_eq_none]
    intro member hmember
    simpa using h member hmember
  rw [lookup, hnone]
  rfl

theorem normalMembers_scalar {members : List (Text × Value F)}
    (h : ∀ member ∈ members, member.2.normal = member.2 ∧ member.2.nesting = 0) :
    normalMembers members = members ∧ nestingMembers members = 0 := by
  induction members with
  | nil => exact ⟨rfl, rfl⟩
  | cons member members ih =>
    obtain ⟨key, v⟩ := member
    obtain ⟨hnormal, hnesting⟩ := ih fun m hm => h m (List.mem_cons_of_mem _ hm)
    obtain ⟨hv, hdepth⟩ := h (key, v) List.mem_cons_self
    simp only at hv hdepth
    exact ⟨by rw [normalMembers, hv, hnormal], by rw [nestingMembers, hdepth, hnesting]; rfl⟩

theorem fromStr_line (hfloats : floats.Lawful) (record : Record) :
    fromStr floats (record.line floats) = some (.obj (collectMembers record.members)) := by
  obtain ⟨hnormal, hnesting⟩ := normalMembers_scalar (members_scalar (F := F) record)
  have hdepth : (Value.obj record.members : Value F).nesting < recursionLimit := by
    rw [Value.nesting, hnesting]
    decide
  rw [Record.line, fromStr_write hfloats hdepth, Value.normal, hnormal]

/-- A record's line carries the record's link. -/
theorem carried_line (hfloats : floats.Lawful) (record : Record) :
    carried floats (record.line floats) = record.prev := by
  have hfields : lookup "prev".toList (record.fields : List (Text × Value F)).reverse = none :=
    lookup_eq_none fun member hmember =>
      (fields_scalar record member (List.mem_reverse.mp hmember)).1
  rw [carried, fromStr_line hfloats, Option.bind_some, Value.get, lookup_collectMembers,
    Record.members, List.reverse_append, lookup_append, hfields, Option.or_none]
  cases hprev : record.prev with
  | none => rfl
  | some p => rfl

/-- A line of its own: one that `lines` gives back as it is and `verify` reads. -/
def OneLine (line : Text) : Prop :=
  '\n' ∉ line ∧ '\r' ∉ line ∧ isBlankLine line = false

theorem oneLine_line (hfloats : floats.Lawful) (record : Record) :
    OneLine (record.line floats) := by
  have hplain := plain_write hfloats (.obj record.members)
  have hopen : '\x7b' ∈ record.line floats := by
    simp [Record.line, Record.members, Record.fields, write]
  refine
    ⟨fun hmem => absurd (hplain _ hmem) (by decide), fun hmem => absurd (hplain _ hmem) (by decide),
    ?_⟩
  rw [isBlankLine, decide_eq_false_iff_not, Text.trim_eq_nil]
  intro hwhite
  exact absurd (hwhite _ hopen) (by decide)

/-! ### Tamper evidence -/

theorem records_eq_lines {text : Text} (h : ∀ line ∈ text.lines, isBlankLine line = false) :
    records text = text.lines := by
  rw [records, List.filter_eq_self]
  intro line hline
  rw [h line hline]
  rfl

/-- **Tamper evidence.** When the hash is injective, two files without blank
    lines that are accepted and end in the same record have the same lines; and
    `aidctl`'s verifier accepts the same files with the same count. -/
theorem accepted_files_agree (floats : Floats F) (hashLine parseError : Text → Text)
    (hinj : Function.Injective hashLine) :
    (∀ path path' text text' n n',
      (∀ line ∈ text.lines, isBlankLine line = false) →
      (∀ line ∈ text'.lines, isBlankLine line = false) →
      verify floats hashLine parseError path (.ok text) = .ok n →
      verify floats hashLine parseError path' (.ok text') = .ok n' →
      text.lines.getLast? = text'.lines.getLast? → text.lines = text'.lines ∧ n = n') ∧
    ∀ path read n, Aidctl.verify floats hashLine parseError path read = .ok n ↔
      verify floats hashLine parseError path read = .ok n := by
  constructor
  · intro path path' text text' n n' hblank hblank' h h' hlast
    rw [verify_eq_ok, records_eq_lines hblank] at h
    rw [verify_eq_ok, records_eq_lines hblank'] at h'
    have hlines := h.1.2.unique hinj h'.1.2 hlast
    exact ⟨hlines, by rw [h.2, h'.2, hlines]⟩
  · intro path read n
    rw [Aidctl.verify_eq]

/-- Doubles for files that hold none. -/
def noFloats : Floats Empty := ⟨fun _ => none, Empty.elim⟩

theorem noFloats_lawful : noFloats.Lawful :=
  ⟨fun f => f.elim, fun f => f.elim, fun f => f.elim⟩

/-- The same record with either line ending. -/
theorem line_endings_agree :
    verify noFloats id id [] (.ok "\x7b\x7d\n".toList) = .ok 1 ∧
      verify noFloats id id [] (.ok "\x7b\x7d\r\n".toList) = .ok 1 ∧
      Text.lines "\x7b\x7d\n".toList = Text.lines "\x7b\x7d\r\n".toList ∧
      Aidctl.verify noFloats id id [] (.ok "\x7b\x7d\n".toList) = .ok 1 :=
  have haccept : verify noFloats id id [] (.ok "\x7b\x7d\n".toList) = .ok 1 := rfl
  have haccept' : verify noFloats id id [] (.ok "\x7b\x7d\r\n".toList) = .ok 1 := rfl
  have hagree := accepted_files_agree noFloats id id Function.injective_id
  ⟨haccept, haccept',
    (hagree.1 [] [] _ _ 1 1 (by decide) (by decide) haccept haccept' (by decide)).1,
    (hagree.2 [] _ 1).mpr haccept⟩

end AiDaemon.Audit
