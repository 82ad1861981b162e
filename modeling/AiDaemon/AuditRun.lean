import AiDaemon.Audit
import AiDaemon.Transition

/-!
# Writing the audit file (`audit.rs`: `Audit::new`, `Audit::append`)

The file is bytes on a disk, and the head of the chain is a text in memory.  A
writer holds the file's lock and the head's for the whole of `append`, so there
is at most one between taking them and giving them back, whichever thread it is;
its steps are the ones the source takes one after the other: link, write, let
go.  A write may fail without writing, and the process may die with any part of
a line written; `Audit::new` then starts over from the file.

Under every run in which no write fails and none is cut short the file verifies
(`audit_chain_verifies`).  With them, what the comments of the source promise
holds of the runs that write no record behind a failed write of the same process
and none onto a file whose last line is not ended (`records_survive`).
-/

namespace AiDaemon.Audit

open Json HashChain Transition

/-! ### Bytes -/

abbrev Bytes := List UInt8

def newline : UInt8 := 10

def asBytes (text : Text) : Bytes := text.flatMap String.utf8EncodeChar

/-- `read_to_string`. -/
def readToString (file : Bytes) : Except Text Text :=
  match file.toByteArray.utf8Decode? with
  | some chars => .ok chars.toList
  | none => .error "stream did not contain valid UTF-8".toList

/-- What `writeln!` writes for a line. -/
def lineBytes (line : Text) : Bytes := asBytes (line ++ ['\n'])

/-! ### The machine -/

/-- How far the writer that has the locks is. -/
inductive Writer where
  | locked (record : Record)
  | linked (line : Text)
  | finished
deriving DecidableEq, Repr

/-- `complete` is the lines completely written in this run, oldest first, and
    `failed` says whether a write of this process has failed; the program keeps
    neither. -/
structure Log where
  file : Bytes
  opened : Bool
  head : Option Text
  writer : Option Writer
  complete : List Text
  failed : Bool
deriving DecidableEq

inductive Action where
  | lock (record : Record)
  | link
  | write
  /-- The write fails, and nothing of the line is in the file. -/
  | fail
  | release
  /-- The process dies with the first bytes of the line written, and is started
      again over the file. -/
  | die (written : Nat) (opens : Bool)
  | restart (opens : Bool)
deriving DecidableEq, Repr

variable {F : Type} (floats : Floats F) (hashLine : Text → Text)

/-- `head_of`, of a file on disk. -/
def headOfFile (file : Bytes) : Option Text :=
  match readToString file with
  | .ok text => headOf floats hashLine text
  | .error _ => none

/-- `Audit::new`. A file that cannot be opened is not written to. -/
def Log.start (log : Log) (opens : Bool) : Log :=
  { log with
    opened := opens
    head := if opens then headOfFile floats hashLine log.file else none
    writer := none
    failed := false }

/-- The daemon as it starts over a file. -/
def Log.new (file : Bytes) : Log where
  file
  opened := true
  head := headOfFile floats hashLine file
  writer := none
  complete := []
  failed := false

/-- One step of `append`, or of the process it runs in. -/
def auditStep (log : Log) : Action → Option Log
  | .lock record =>
    match log.writer with
    | none => some { log with writer := some (.locked record) }
    | some _ => none
  | .link =>
    match log.writer with
    | some (.locked record) =>
      if log.opened then
        let line := Record.line floats { record with prev := log.head }
        some { log with head := some (hashLine line), writer := some (.linked line) }
      else some { log with writer := some .finished }
    | _ => none
  | .write =>
    match log.writer with
    | some (.linked line) =>
      some { log with
        file := log.file ++ lineBytes line
        complete := log.complete ++ [line]
        writer := some .finished }
    | _ => none
  | .fail =>
    match log.writer with
    | some (.linked _) => some { log with failed := true, writer := some .finished }
    | _ => none
  | .release =>
    match log.writer with
    | some .finished => some { log with writer := none }
    | _ => none
  | .die written opens =>
    match log.writer with
    | some (.linked line) =>
      if written < (lineBytes line).length then
        let torn := { log with file := log.file ++ (lineBytes line).take written }
        some (torn.start floats hashLine opens)
      else none
    | _ => none
  | .restart opens => some (log.start floats hashLine opens)

/-- What a step can do, and where it can be taken. -/
inductive Stepped (log : Log) : Action → Log → Prop where
  | lock (record : Record) : log.writer = none →
      Stepped log (.lock record) { log with writer := some (.locked record) }
  | link (record : Record) : log.writer = some (.locked record) → log.opened = true →
      Stepped log .link { log with
        head := some (hashLine (Record.line floats { record with prev := log.head }))
        writer := some (.linked (Record.line floats { record with prev := log.head })) }
  | skip (record : Record) : log.writer = some (.locked record) → log.opened = false →
      Stepped log .link { log with writer := some .finished }
  | write (line : Text) : log.writer = some (.linked line) →
      Stepped log .write { log with
        file := log.file ++ lineBytes line
        complete := log.complete ++ [line]
        writer := some .finished }
  | fail (line : Text) : log.writer = some (.linked line) →
      Stepped log .fail { log with failed := true, writer := some .finished }
  | release : log.writer = some .finished → Stepped log .release { log with writer := none }
  | die (line : Text) (written : Nat) (opens : Bool) : log.writer = some (.linked line) →
      written < (lineBytes line).length →
      Stepped log (.die written opens)
        ({ log with file := log.file ++ (lineBytes line).take written }.start floats hashLine opens)
  | restart (opens : Bool) : Stepped log (.restart opens) (log.start floats hashLine opens)

theorem stepped_of_auditStep {log next : Log} {action : Action}
    (h : auditStep floats hashLine log action = some next) :
    Stepped floats hashLine log action next := by
  cases action with
  | lock record =>
    simp only [auditStep] at h
    split at h
    · rename_i hwriter
      cases h
      exact .lock record hwriter
    · cases h
  | link =>
    simp only [auditStep] at h
    split at h
    · rename_i record hwriter
      split at h
      · rename_i hopened
        cases h
        exact .link record hwriter hopened
      · rename_i hclosed
        cases h
        exact .skip record hwriter (by simpa using hclosed)
    · cases h
  | write =>
    simp only [auditStep] at h
    split at h
    · rename_i line hwriter
      cases h
      exact .write line hwriter
    · cases h
  | fail =>
    simp only [auditStep] at h
    split at h
    · rename_i line hwriter
      cases h
      exact .fail line hwriter
    · cases h
  | release =>
    simp only [auditStep] at h
    split at h
    · rename_i hwriter
      cases h
      exact .release hwriter
    · cases h
  | die written opens =>
    simp only [auditStep] at h
    split at h
    · rename_i line hwriter
      split at h
      · rename_i hshort
        cases h
        exact .die line written opens hwriter hshort
      · cases h
    · cases h
  | restart opens =>
    cases h
    exact .restart opens

/-! ### Bytes and lines -/

theorem readToString_asBytes (text : Text) : readToString (asBytes text) = .ok text := by
  have hdecode : (asBytes text).toByteArray.utf8Decode? = some text.toArray :=
    List.utf8Decode?_utf8Encode
  rw [readToString, hdecode]

theorem asBytes_append (text text' : Text) :
    asBytes (text ++ text') = asBytes text ++ asBytes text' :=
  List.flatMap_append

theorem lineBytes_eq (line : Text) : lineBytes line = asBytes line ++ [newline] :=
  asBytes_append line ['\n']

/-- A byte with its high bit set is no line feed. -/
theorem newline_ne_or {mark : UInt8} (hmark : newline ||| mark ≠ newline) (byte : UInt8) :
    newline ≠ byte ||| mark := by
  intro heq
  apply hmark
  rw [heq, UInt8.or_assoc, UInt8.or_self]

theorem newline_not_mem_utf8EncodeChar {c : Char} (hc : c ≠ '\n') :
    newline ∉ String.utf8EncodeChar c := by
  rcases c.utf8Size_eq with hsize | hsize | hsize | hsize
  · rw [String.utf8EncodeChar_eq_singleton hsize, List.mem_singleton]
    intro heq
    have hsmall : c.val.toNat ≤ 127 := by
      have hle := Char.utf8Size_eq_one_iff.mp hsize
      rwa [UInt32.le_iff_toNat_le] at hle
    have hvalue : 10 = c.val.toNat % 256 := by
      have hnat := congrArg UInt8.toNat heq
      rwa [UInt32.toNat_toUInt8] at hnat
    apply hc
    rw [Char.ext_iff, ← UInt32.toNat_inj]
    show c.val.toNat = 10
    omega
  · rw [String.utf8EncodeChar_eq_cons_cons hsize]
    simp only [List.mem_cons, List.not_mem_nil, or_false, not_or]
    exact ⟨newline_ne_or (by decide) _, newline_ne_or (by decide) _⟩
  · rw [String.utf8EncodeChar_eq_cons_cons_cons hsize]
    simp only [List.mem_cons, List.not_mem_nil, or_false, not_or]
    exact ⟨newline_ne_or (by decide) _, newline_ne_or (by decide) _, newline_ne_or (by decide) _⟩
  · rw [String.utf8EncodeChar_eq_cons_cons_cons_cons hsize]
    simp only [List.mem_cons, List.not_mem_nil, or_false, not_or]
    exact ⟨newline_ne_or (by decide) _, newline_ne_or (by decide) _, newline_ne_or (by decide) _,
      newline_ne_or (by decide) _⟩

theorem newline_not_mem_asBytes {text : Text} (h : '\n' ∉ text) : newline ∉ asBytes text := by
  intro hmem
  obtain ⟨c, hc, hbyte⟩ := List.mem_flatMap.mp hmem
  refine newline_not_mem_utf8EncodeChar ?_ hbyte
  rintro rfl
  exact h hc

/-- The lines of a file, each ended. -/
def unlines (lines : List Text) : Text := lines.flatMap fun line => line ++ ['\n']

/-- Nothing stands behind the last line feed of the text. -/
def Ended (text : Text) : Prop := text = [] ∨ text.getLast? = some '\n'

theorem ended_append_line (text line : Text) : Ended (text ++ (line ++ ['\n'])) := by
  right
  rw [← List.append_assoc, List.getLast?_concat]

theorem ended_append_unlines {text : Text} (h : Ended text) (lines : List Text) :
    Ended (text ++ unlines lines) := by
  induction lines generalizing text with
  | nil => simpa [unlines] using h
  | cons line lines ih =>
    have hmore := ih (ended_append_line text line)
    simpa [unlines] using hmore

theorem lines_append_unlines {text : Text} (h : Ended text) {lines : List Text}
    (hlines : ∀ line ∈ lines, OneLine line) :
    Text.lines (text ++ unlines lines) = Text.lines text ++ lines := by
  induction lines generalizing text with
  | nil => simp [unlines]
  | cons line lines ih =>
    obtain ⟨hlf, hcr, -⟩ := hlines line List.mem_cons_self
    have hmore := ih (ended_append_line text line) fun l hl => hlines l (List.mem_cons_of_mem _ hl)
    rw [Text.lines_append_line h hlf (Text.stripCr_eq_self hcr)] at hmore
    simpa [unlines] using hmore

theorem records_append_unlines {text : Text} (h : Ended text) {lines : List Text}
    (hlines : ∀ line ∈ lines, OneLine line) :
    records (text ++ unlines lines) = records text ++ lines := by
  rw [records, lines_append_unlines h hlines, List.filter_append, records]
  congr 1
  rw [List.filter_eq_self]
  intro line hline
  rw [(hlines line hline).2.2]
  rfl

/-! ### The head of a file -/

/-- Recovery finds what the next record has to carry. -/
theorem headOf_chained {text : Text} (h : Chained floats hashLine none (records text)) :
    headOf floats hashLine text = head hashLine none (records text) := by
  have hfind :
    text.lines.reverse.find? (fun line => !isBlankLine line) = (records text).getLast? := by
    rw [← List.head?_filter, List.filter_reverse, List.head?_reverse, records]
  rw [headOf, hfind]
  cases hlast : (records text).getLast? with
  | none => simp [head, hlast]
  | some last =>
    obtain ⟨record, hparse⟩ := Option.isSome_iff_exists.mp (h.1 last (List.mem_of_getLast? hlast))
    simp [head, hlast, hparse]

/-- The head of the chain that starts with a text and goes on with the lines
    written since. -/
def chainHead (start : Text) (complete : List Text) : Option Text :=
  head hashLine none (records start ++ complete)

theorem headOfFile_written {start : Text} (hended : Ended start) (complete : List Text)
    (hlines : ∀ line ∈ complete, OneLine line)
    (hchained : Chained floats hashLine none (records start ++ complete)) :
    headOfFile floats hashLine (asBytes (start ++ unlines complete)) =
      chainHead hashLine start complete := by
  rw [← records_append_unlines hended hlines] at hchained
  rw [headOfFile, readToString_asBytes]
  show headOf floats hashLine (start ++ unlines complete) = _
  rw [headOf_chained floats hashLine hchained, records_append_unlines hended hlines, chainHead]

/-! ### The invariant -/

/-- Nothing has gone wrong since the process started: no write has failed, and
    the file holds whole lines. -/
def Untroubled (start : Text) (log : Log) : Prop :=
  log.failed = false ∧ log.file = asBytes (start ++ unlines log.complete)

/-- `start` is the file as the run found it. -/
structure LogInv (start : Text) (log : Log) : Prop where
  disk : ∃ torn, log.file = asBytes (start ++ unlines log.complete) ++ torn ∧ newline ∉ torn
  chained : Chained floats hashLine none (records start ++ log.complete)
  oneLine : ∀ line ∈ log.complete, OneLine line
  linked : ∀ line, log.writer = some (.linked line) →
    OneLine line ∧ (fromStr floats line).isSome ∧ log.head = some (hashLine line)
  carries : ∀ line, log.writer = some (.linked line) → Untroubled start log →
    carried floats line = chainHead hashLine start log.complete
  head : (∀ line, log.writer ≠ some (.linked line)) → log.opened = true → Untroubled start log →
    log.head = chainHead hashLine start log.complete

variable {floats hashLine} {start : Text} {log next : Log}

/-- A record is written only where no write of the process has failed before it
    and the file is empty or its last line is ended. -/
def Intact (log : Log) (action : Action) : Prop :=
  action = .write → log.failed = false ∧ (log.file = [] ∨ log.file.getLast? = some newline)

instance (log : Log) (action : Action) : Decidable (Intact log action) :=
  inferInstanceAs (Decidable (_ → _))

/-- Whatever was torn off is gone once the file ends with a line feed. -/
theorem torn_nil {whole torn : Bytes} (htorn : newline ∉ torn)
    (hend : whole ++ torn = [] ∨ (whole ++ torn).getLast? = some newline) : torn = [] := by
  rcases hend with hnil | hlast
  · exact (List.append_eq_nil_iff.mp hnil).2
  · cases hcases : torn.getLast? with
    | none => exact List.getLast?_eq_none_iff.mp hcases
    | some byte =>
      rw [List.getLast?_append, hcases, Option.some_or] at hlast
      cases hlast
      exact absurd (List.mem_of_getLast? hcases) htorn

/-- A line behind whole lines leaves whole lines. -/
theorem whole_append {file : Bytes} {complete : List Text}
    (hfile : file = asBytes (start ++ unlines complete)) (line : Text) :
    file ++ lineBytes line = asBytes (start ++ unlines (complete ++ [line])) := by
  rw [hfile, lineBytes, ← asBytes_append]
  simp [unlines]

/-- A strict part of what `writeln!` writes holds no line feed. -/
theorem newline_not_mem_take {line : Text} (hline : '\n' ∉ line) {written : Nat}
    (h : written < (lineBytes line).length) : newline ∉ (lineBytes line).take written := by
  rw [lineBytes_eq, List.length_append, List.length_singleton] at h
  rw [lineBytes_eq, List.take_append_of_le_length (by omega)]
  intro hmem
  exact newline_not_mem_asBytes hline (List.mem_of_mem_take hmem)

/-- A step that leaves the file, the head and the failures alone, and after
    which no line waits to be written. -/
theorem LogInv.moves (h : LogInv floats hashLine start log) {writer : Option Writer}
    (hbefore : ∀ line, log.writer ≠ some (.linked line))
    (hafter : ∀ line, writer ≠ some (.linked line)) :
    LogInv floats hashLine start { log with writer } where
  disk := h.disk
  chained := h.chained
  oneLine := h.oneLine
  linked line hline := absurd hline (hafter line)
  carries line hline := absurd hline (hafter line)
  head _ hopened huntroubled := h.head hbefore hopened huntroubled

theorem LogInv.restarts (h : LogInv floats hashLine start log) (hended : Ended start)
    (opens : Bool) :
    LogInv floats hashLine start (log.start floats hashLine opens) where
  disk := h.disk
  chained := h.chained
  oneLine := h.oneLine
  linked line hline := by cases hline
  carries line hline := by cases hline
  head _ hopened huntroubled := by
    have hopens : opens = true := hopened
    have hfile : log.file = asBytes (start ++ unlines log.complete) := huntroubled.2
    show (if opens then headOfFile floats hashLine log.file else none) =
      chainHead hashLine start log.complete
    rw [if_pos hopens, hfile, headOfFile_written floats hashLine hended _ h.oneLine h.chained]

theorem LogInv.links (hfloats : floats.Lawful) (h : LogInv floats hashLine start log)
    {record : Record} (hwriter : log.writer = some (.locked record)) (hopened : log.opened = true) :
    LogInv floats hashLine start { log with
      head := some (hashLine (Record.line floats { record with prev := log.head }))
      writer := some (.linked (Record.line floats { record with prev := log.head })) } where
  disk := h.disk
  chained := h.chained
  oneLine := h.oneLine
  linked line hline := by
    cases hline
    refine ⟨oneLine_line hfloats _, ?_, rfl⟩
    rw [fromStr_line hfloats]
    rfl
  carries line hline huntroubled := by
    cases hline
    rw [carried_line hfloats]
    exact h.head (by simp [hwriter]) hopened huntroubled
  head hafter := absurd rfl (hafter _)

/-- The step that matters: a whole line behind whole lines. -/
theorem LogInv.writes (h : LogInv floats hashLine start log) {line : Text}
    (hwriter : log.writer = some (.linked line)) (hintact : Intact log .write) :
    LogInv floats hashLine start { log with
      file := log.file ++ lineBytes line
      complete := log.complete ++ [line]
      writer := some .finished } := by
  obtain ⟨hfailed, hend⟩ := hintact rfl
  obtain ⟨torn, hfile, htorn⟩ := h.disk
  rw [hfile] at hend
  have hnil := torn_nil htorn hend
  rw [hnil, List.append_nil] at hfile
  obtain ⟨hone, hparses, hhead⟩ := h.linked line hwriter
  have hcarries := h.carries line hwriter ⟨hfailed, hfile⟩
  refine ⟨⟨[], ?_, List.not_mem_nil⟩, ?_, ?_, ?_, ?_, ?_⟩
  · rw [List.append_nil]
    exact whole_append hfile line
  · obtain ⟨hall, hlinked⟩ := h.chained
    rw [← List.append_assoc]
    constructor
    · intro l hl
      rcases List.mem_append.mp hl with hl | hl
      · exact hall l hl
      · cases List.mem_singleton.mp hl
        exact hparses
    · rw [linked_concat]
      exact ⟨hlinked, hcarries⟩
  · intro l hl
    rcases List.mem_append.mp hl with hl | hl
    · exact h.oneLine l hl
    · cases List.mem_singleton.mp hl
      exact hone
  · intro l hl
    cases hl
  · intro l hl
    cases hl
  · intro _ _ _
    show log.head = chainHead hashLine start (log.complete ++ [line])
    rw [hhead, chainHead, ← List.append_assoc, head_concat]

/-- A part of a line behind whatever is there.  Nothing looks at the log before
    the process starts over it. -/
theorem LogInv.tears (h : LogInv floats hashLine start log) {line : Text}
    (hwriter : log.writer = some (.linked line)) {written : Nat}
    (hshort : written < (lineBytes line).length) :
    LogInv floats hashLine start { log with
      file := log.file ++ (lineBytes line).take written
      opened := false
      writer := none } := by
  obtain ⟨torn, hfile, htorn⟩ := h.disk
  have hpart := newline_not_mem_take (h.linked line hwriter).1.1 hshort
  refine ⟨⟨torn ++ (lineBytes line).take written, ?_, ?_⟩, h.chained, h.oneLine, ?_, ?_, ?_⟩
  · rw [← List.append_assoc, ← hfile]
  · rw [List.mem_append, not_or]
    exact ⟨htorn, hpart⟩
  · intro l hl
    cases hl
  · intro l hl
    cases hl
  · intro _ hopened
    cases hopened

theorem auditStep_inv (hfloats : floats.Lawful) (hended : Ended start)
    (h : LogInv floats hashLine start log) {action : Action} (hintact : Intact log action)
    (hstep : auditStep floats hashLine log action = some next) :
    LogInv floats hashLine start next := by
  cases stepped_of_auditStep floats hashLine hstep with
  | lock record hwriter => exact h.moves (by simp [hwriter]) (by simp)
  | link record hwriter hopened => exact h.links hfloats hwriter hopened
  | skip record hwriter hclosed => exact h.moves (by simp [hwriter]) (by simp)
  | write line hwriter => exact h.writes hwriter hintact
  | fail line hwriter =>
    refine ⟨h.disk, h.chained, h.oneLine, ?_, ?_, ?_⟩
    · intro l hl
      cases hl
    · intro l hl
      cases hl
    · intro _ _ huntroubled
      cases huntroubled.1
  | release hwriter => exact h.moves (by simp [hwriter]) (by simp)
  | die line written opens hwriter hshort => exact (h.tears hwriter hshort).restarts hended opens
  | restart opens => exact h.restarts hended opens

theorem new_inv (hchained : Chained floats hashLine none (records start)) (hended : Ended start) :
    LogInv floats hashLine start (Log.new floats hashLine (asBytes start)) where
  disk := ⟨[], by simp [Log.new, unlines], List.not_mem_nil⟩
  chained := by simpa [Log.new] using hchained
  oneLine line hline := by cases hline
  linked line hline := by cases hline
  carries line hline := by cases hline
  head _ _ _ := by
    have hhead := headOfFile_written floats hashLine hended []
      (fun line hline => by cases hline) (by simpa using hchained)
    simpa [Log.new, unlines] using hhead

/-! ### Clean runs -/

/-- No write fails, and the process dies in none. -/
def Clean (action : Action) : Prop := action ≠ .fail ∧ ∀ written opens, action ≠ .die written opens

theorem asBytes_ended {text : Text} (h : Ended text) :
    asBytes text = [] ∨ (asBytes text).getLast? = some newline := by
  rcases h with rfl | hlast
  · exact Or.inl rfl
  · obtain ⟨body, rfl⟩ := List.getLast?_eq_some_iff.mp hlast
    right
    rw [asBytes_append]
    exact List.getLast?_concat

theorem Untroubled.intact (hended : Ended start) (h : Untroubled start log) (action : Action) :
    Intact log action := by
  intro _
  refine ⟨h.1, ?_⟩
  rw [h.2]
  exact asBytes_ended (ended_append_unlines hended log.complete)

theorem auditStep_untroubled (h : Untroubled start log) {action : Action} (hclean : Clean action)
    (hstep : auditStep floats hashLine log action = some next) : Untroubled start next := by
  cases stepped_of_auditStep floats hashLine hstep with
  | lock record hwriter => exact h
  | link record hwriter hopened => exact h
  | skip record hwriter hclosed => exact h
  | write line hwriter => exact ⟨h.1, whole_append h.2 line⟩
  | fail line hwriter => exact absurd rfl hclean.1
  | release hwriter => exact h
  | die line written opens hwriter hshort => exact absurd rfl (hclean.2 written opens)
  | restart opens => exact ⟨rfl, h.2⟩

def isWrite (action : Action) : Bool := action = .write

/-- One line is completely written in each step that writes, and in no other. -/
theorem auditStep_complete {action : Action}
    (hstep : auditStep floats hashLine log action = some next) :
    next.complete.length = log.complete.length + if isWrite action then 1 else 0 := by
  cases stepped_of_auditStep floats hashLine hstep with
  | write line hwriter => exact List.length_append
  | lock record hwriter => rfl
  | link record hwriter hopened => rfl
  | skip record hwriter hclosed => rfl
  | fail line hwriter => rfl
  | release hwriter => rfl
  | die line written opens hwriter hshort => rfl
  | restart opens => rfl

/-- The text of a file that holds whole lines is accepted, with every record in
    it counted. -/
theorem LogInv.verifies (h : LogInv floats hashLine start log) (hended : Ended start)
    (parseError : Text → Text) (path : Text) :
    verify floats hashLine parseError path (.ok (start ++ unlines log.complete)) =
      .ok ((records start).length + log.complete.length) := by
  rw [verify_eq_ok, records_append_unlines hended h.oneLine, List.length_append]
  exact ⟨h.chained, rfl⟩

/-- **The chain verifies.** Over a file that verifies and is empty or ends with a
    line feed, after any number of records from any number of writers and any
    restarts between them, the file verifies with every record counted. -/
theorem audit_chain_verifies (floats : Floats F) (hfloats : floats.Lawful)
    (hashLine parseError : Text → Text) (path start : Text) (n : Nat)
    (hstart : verify floats hashLine parseError path (.ok start) = .ok n) (hended : Ended start)
    (actions : List Action) (hclean : ∀ action ∈ actions, Clean action) (log : Log)
    (hrun : runs (auditStep floats hashLine) (Log.new floats hashLine (asBytes start)) actions =
      some log) :
    verify floats hashLine parseError path (readToString log.file) =
      .ok (n + actions.countP isWrite) := by
  rw [verify_eq_ok] at hstart
  obtain ⟨hchained, rfl⟩ := hstart
  obtain ⟨hinv, -, hfile⟩ : LogInv floats hashLine start log ∧ Untroubled start log := by
    have hnew : Untroubled start (Log.new floats hashLine (asBytes start)) := by
      simp [Untroubled, Log.new, unlines]
    refine runs_invariant_along (auditStep floats hashLine)
      (P := fun log => LogInv floats hashLine start log ∧ Untroubled start log) ?_
      ⟨new_inv hchained hended, hnew⟩ (along_of_forall _ hclean) hrun
    rintro log action next ⟨hinv, huntroubled⟩ haction hstep
    exact ⟨auditStep_inv hfloats hended hinv (huntroubled.intact hended action) hstep,
      auditStep_untroubled huntroubled haction hstep⟩
  have hcount : log.complete.length = 0 + actions.countP isWrite :=
    runs_count (auditStep floats hashLine) (m := fun log => log.complete.length)
      (fun _ _ _ => auditStep_complete) hrun
  rw [hfile, readToString_asBytes, hinv.verifies hended parseError path, hcount, Nat.zero_add]

/-- One record of a caller that sets nothing but its name. -/
def plainRecord (event : String) : Record where
  atSecs := 0
  event := event.toList
  identity := "uid:1".toList
  cls := "native".toList
  uid := 1
  pid := 2
  session := none
  model := none
  digest := none
  isLocal := none
  promptTokens := none
  completionTokens := none
  attachmentBytes := none
  detail := none
  prev := none

/-- The steps of a writer whose write succeeds. -/
def appends (event : String) : List Action := [.lock (plainRecord event), .link, .write, .release]

/-- Three records with a restart between them, over an empty file. -/
theorem chain_survives_restart :
    ∃ log, runs (auditStep noFloats id) (Log.new noFloats id (asBytes []))
        (appends "one" ++ appends "two" ++ .restart true :: appends "three") = some log ∧
      verify noFloats id id [] (readToString log.file) = .ok 3 :=
  have hrun := rfl
  ⟨_, hrun, audit_chain_verifies noFloats noFloats_lawful id id [] [] 0 rfl (Or.inl rfl) _
    (by simp [appends, Clean]) _ hrun⟩

/-! ### Failed and partial writes -/

/-- The file without the partial line at its end. -/
def wholeLines (file : Bytes) : Bytes := (file.reverse.dropWhile fun byte => byte ≠ newline).reverse

/-- What the chain is to be after failures: every record completely written
    carries the hash of the last one completely written before it and has a line
    of its own, and without the partial line the file verifies. -/
structure Survives (floats : Floats F) (hashLine parseError : Text → Text) (path start : Text)
    (log : Log) : Prop where
  linked : Linked hashLine (carried floats) (head hashLine none (records start)) log.complete
  ownLines : ∃ text, readToString (wholeLines log.file) = .ok text ∧
    text.lines = start.lines ++ log.complete
  verified : verify floats hashLine parseError path (readToString (wholeLines log.file)) =
    .ok ((records start).length + log.complete.length)

theorem wholeLines_append {whole torn : Bytes} (hwhole : whole = [] ∨ whole.getLast? = some newline)
    (htorn : newline ∉ torn) : wholeLines (whole ++ torn) = whole := by
  have hdrop : ∀ byte ∈ torn.reverse, decide (byte ≠ newline) = true := by
    intro byte hbyte
    simp only [ne_eq, decide_not, Bool.not_eq_true', decide_eq_false_iff_not]
    rintro rfl
    exact htorn (List.mem_reverse.mp hbyte)
  rw [wholeLines, List.reverse_append, List.dropWhile_append_of_pos hdrop]
  rcases hwhole with rfl | hlast
  · rfl
  · obtain ⟨body, rfl⟩ := List.getLast?_eq_some_iff.mp hlast
    simp

theorem LogInv.survives (h : LogInv floats hashLine start log) (hended : Ended start)
    (parseError : Text → Text) (path : Text) :
    Survives floats hashLine parseError path start log := by
  obtain ⟨torn, hfile, htorn⟩ := h.disk
  have hwhole : wholeLines log.file = asBytes (start ++ unlines log.complete) := by
    rw [hfile]
    exact wholeLines_append (asBytes_ended (ended_append_unlines hended log.complete)) htorn
  refine ⟨((linked_append _ _).mp h.chained.2).2, ⟨start ++ unlines log.complete, ?_, ?_⟩, ?_⟩
  · rw [hwhole, readToString_asBytes]
  · exact lines_append_unlines hended h.oneLine
  · rw [hwhole, readToString_asBytes]
    exact h.verifies hended parseError path

/-- **Failures.** In every run that writes no record behind a failed write of the
    same process, and none onto a file whose last line is not ended, the chain
    survives whatever writes fail and wherever the process dies. -/
theorem records_survive (floats : Floats F) (hfloats : floats.Lawful)
    (hashLine parseError : Text → Text) (path start : Text) (n : Nat)
    (hstart : verify floats hashLine parseError path (.ok start) = .ok n) (hended : Ended start)
    (actions : List Action) (log : Log)
    (hintact : along (auditStep floats hashLine) Intact (Log.new floats hashLine (asBytes start))
      actions)
    (hrun : runs (auditStep floats hashLine) (Log.new floats hashLine (asBytes start)) actions =
      some log) :
    Survives floats hashLine parseError path start log := by
  rw [verify_eq_ok] at hstart
  have hinv : LogInv floats hashLine start log :=
    runs_invariant_along (auditStep floats hashLine)
      (fun log action next hinv hstep => auditStep_inv hfloats hended hinv hstep)
      (new_inv hstart.1 hended) hintact hrun
  exact hinv.survives hended parseError path

/-- The steps of a writer whose write fails. -/
def fails (event : String) : List Action := [.lock (plainRecord event), .link, .fail, .release]

/-- A failed write, and a record after a restart. -/
theorem record_survives_restart :
    ∃ log, runs (auditStep noFloats id) (Log.new noFloats id (asBytes []))
        (fails "one" ++ .restart true :: appends "two") = some log ∧
      Survives noFloats id id [] [] log :=
  have hrun := rfl
  ⟨_, hrun, records_survive noFloats noFloats_lawful id id [] [] 0 rfl (Or.inl rfl) _ _
    (by decide +kernel) hrun⟩

/-- A record behind a failed write carries the hash of a line that is nowhere. -/
theorem failed_write_breaks_chain :
    ¬ ∀ (floats : Floats Empty) (hashLine parseError : Text → Text) (path start : Text) (n : Nat)
        (actions : List Action) (log : Log), floats.Lawful →
      verify floats hashLine parseError path (.ok start) = .ok n → Ended start →
      runs (auditStep floats hashLine) (Log.new floats hashLine (asBytes start)) actions =
        some log →
      Survives floats hashLine parseError path start log := by
  intro hall
  have hsurvives := hall noFloats id id [] [] 0 (fails "one" ++ appends "two") _ noFloats_lawful rfl
    (Or.inl rfl) rfl
  have hcarried := hsurvives.linked.1
  rw [carried_line noFloats_lawful] at hcarried
  cases hcarried

end AiDaemon.Audit
