import AiDaemon.AuditRun
import AiDaemon.BufferedReader
import AiDaemon.Shim

/-!
# The shim's requests (`main.rs`: `read_request`)

A request is a line, headers up to an empty line, and a body of the length one of the
headers gave.  It comes off a socket in whatever pieces the sender or the kernel
chose, through a buffered reader.

Two things are read out of the headers: how long the body is, and the token the
caller presented, under either of the names the two APIs use.  Where a header comes
more than once the last one counts.  `readRequest_written` says what becomes of any
request; that the pieces do not matter is `readRequest_script`.
-/

namespace AiDaemon.ShimHttp

open Audit ByteStream

/-! ### The source -/

/-- `MAX_BODY` -/
def maxBody : Nat := 32 * 1024 * 1024

structure HttpRequest where
  method : Text
  path : Text
  body : List UInt8
  token : Option Text
deriving DecidableEq, Repr

/-- `BufReader::read_line`, with a buffer of the usual size. -/
def readLine (r : BufReader) : Except Text Text × BufReader :=
  (readToString (r.readUntil 8191 newline).1, (r.readUntil 8191 newline).2)

/-- `split_once` at a character. -/
def splitOnce (sep : Char) : Text → Option (Text × Text)
  | [] => none
  | c :: cs =>
    if c = sep then some ([], cs)
    else (splitOnce sep cs).map fun cut => (c :: cut.1, cut.2)

def eqIgnoreAsciiCase (a b : Text) : Bool := a.map Char.toLower = b.map Char.toLower

/-- `parse::<usize>()` -/
def parseUsize (s : Text) : Option Nat :=
  (Text.digits? ((['+'].isPrefixOf? s).getD s)).filter (fun n => n < 2 ^ 64)

def routePath (target : Text) : Text := (target.splitOn '?').headD target

/-- What the headers said so far. -/
structure Head where
  contentLength : Nat
  token : Option Text
deriving DecidableEq, Repr

def bearer (value : Text) : Option Text :=
  (("Bearer ".toList.isPrefixOf? value).or ("bearer ".toList.isPrefixOf? value)).map Text.trim

/-- What a header is kept for. -/
def Head.header (head : Head) (name value : Text) : Head where
  contentLength :=
    if eqIgnoreAsciiCase name "content-length".toList then (parseUsize value.trim).getD 0
    else head.contentLength
  token :=
    if eqIgnoreAsciiCase name "authorization".toList then bearer value.trim
    else if eqIgnoreAsciiCase name "x-api-key".toList then some value.trim
    else head.token

/-- One line of the head. -/
def Head.line (head : Head) (line : Text) : Head :=
  match splitOnce ':' line with
  | some (name, value) => head.header name value
  | none => head

theorem readToString_nil : readToString [] = .ok [] := rfl

theorem readLine_shrinks {r : BufReader} {line : Text} (h : (readLine r).1 = .ok line)
    (hne : line ≠ []) : (readLine r).2.bytes.length < r.bytes.length := by
  apply BufReader.readUntil_shrinks
  intro hnil
  rw [readLine, hnil, readToString_nil] at h
  exact hne (Except.ok.inj h).symm

/-- The loop over the headers. -/
def readHead (head : Head) (r : BufReader) : Except Text Head × BufReader :=
  match _hline : (readLine r).1 with
  | .error e => (.error e, (readLine r).2)
  | .ok line =>
    if _hend : line = [] then (.ok head, (readLine r).2)
    else if line = "\r\n".toList ∨ line = "\n".toList then (.ok head, (readLine r).2)
    else readHead (head.line line) (readLine r).2
termination_by r.bytes.length
decreasing_by exact readLine_shrinks _hline _hend

def overLimitText (contentLength : Nat) : Text :=
  "body of ".toList ++ Text.ofNat contentLength ++ " bytes is over the limit".toList

/-- `read_request` -/
def readRequest (src : Source) : Except Text HttpRequest :=
  match (readLine ⟨[], src⟩).1 with
  | .error e => .error e
  | .ok line =>
    let parts := Text.splitWhitespace line
    match readHead ⟨0, none⟩ (readLine ⟨[], src⟩).2 with
    | (.error e, _) => .error e
    | (.ok head, rest) =>
      if head.contentLength > maxBody then .error (overLimitText head.contentLength)
      else
        let body := (rest.take head.contentLength).1
        if body.length < head.contentLength then .error "failed to fill whole buffer".toList
        else .ok ⟨parts.headD [], routePath ((parts[1]?).getD []), body, head.token⟩

/-! ### Pieces -/

/-- A line is the same however the stream hands out its bytes. -/
theorem readLine_bytes {r r' : BufReader} (h : r.bytes = r'.bytes) :
    (readLine r).1 = (readLine r').1 ∧ (readLine r).2.bytes = (readLine r').2.bytes := by
  obtain ⟨hline, hrest⟩ := BufReader.readUntil_spec 8191 newline r
  obtain ⟨hline', hrest'⟩ := BufReader.readUntil_spec 8191 newline r'
  simp only [readLine]
  rw [hline, hline', hrest, hrest', h]
  exact ⟨rfl, rfl⟩

theorem readHead_error {head : Head} {r : BufReader} {e : Text} (h : (readLine r).1 = .error e) :
    readHead head r = (.error e, (readLine r).2) := by
  rw [readHead]
  split <;> simp_all

theorem readHead_end {head : Head} {r : BufReader} {line : Text} (h : (readLine r).1 = .ok line)
    (hend : line = [] ∨ line = "\r\n".toList ∨ line = "\n".toList) :
    readHead head r = (.ok head, (readLine r).2) := by
  rw [readHead]
  split
  · simp_all
  · rename_i other hother
    rw [h, Except.ok.injEq] at hother
    subst hother
    rcases hend with rfl | hend
    · rw [dif_pos rfl]
    · rw [if_pos hend, dite_eq_ite, ite_self]

theorem readHead_line {head : Head} {r : BufReader} {line : Text} (h : (readLine r).1 = .ok line)
    (hne : line ≠ []) (hmore : ¬(line = "\r\n".toList ∨ line = "\n".toList)) :
    readHead head r = readHead (head.line line) (readLine r).2 := by
  rw [readHead]
  split
  · simp_all
  · rename_i other hother
    rw [h, Except.ok.injEq] at hother
    subst hother
    rw [dif_neg hne, if_neg hmore]

theorem readHead_bytes (head : Head) {r r' : BufReader} (h : r.bytes = r'.bytes) :
    (readHead head r).1 = (readHead head r').1 ∧
      (readHead head r).2.bytes = (readHead head r').2.bytes := by
  induction hsize : r.bytes.length using Nat.strongRecOn generalizing head r r' with
  | _ size ih =>
    obtain ⟨hline, hrest⟩ := readLine_bytes h
    cases hread : (readLine r).1 with
    | error e =>
      have hread' : (readLine r').1 = .error e := hline ▸ hread
      rw [readHead_error hread, readHead_error hread']
      exact ⟨rfl, hrest⟩
    | ok line =>
      have hread' : (readLine r').1 = .ok line := hline ▸ hread
      by_cases hend : line = [] ∨ line = "\r\n".toList ∨ line = "\n".toList
      · rw [readHead_end hread hend, readHead_end hread' hend]
        exact ⟨rfl, hrest⟩
      · rw [not_or] at hend
        rw [readHead_line hread hend.1 hend.2, readHead_line hread' hend.1 hend.2]
        exact ih _ (by rw [← hsize]; exact readLine_shrinks hread hend.1) _ hrest rfl

/-- **The pieces do not matter.** However the bytes of a connection arrive, the request is
    the same. -/
theorem readRequest_script (bytes : List UInt8) (script : List Answer) :
    readRequest ⟨bytes, script⟩ = readRequest ⟨bytes, []⟩ := by
  have hstart : (BufReader.mk [] ⟨bytes, script⟩).bytes = (BufReader.mk [] ⟨bytes, []⟩).bytes := rfl
  obtain ⟨hline, hrest⟩ := readLine_bytes hstart
  obtain ⟨hhead, hbody⟩ := readHead_bytes ⟨0, none⟩ hrest
  unfold readRequest
  rw [hline]
  cases (readLine ⟨[], ⟨bytes, []⟩⟩).1 with
  | error e => rfl
  | ok line =>
    dsimp only
    rcases hread : readHead ⟨0, none⟩ (readLine ⟨[], ⟨bytes, script⟩⟩).2 with ⟨outcome, rest⟩
    rcases hread' : readHead ⟨0, none⟩ (readLine ⟨[], ⟨bytes, []⟩⟩).2 with ⟨outcome', rest'⟩
    rw [hread, hread'] at hhead hbody
    obtain rfl : outcome = outcome' := hhead
    have hbehind : rest.bytes = rest'.bytes := hbody
    cases outcome with
    | error e => rfl
    | ok head =>
      dsimp only
      rw [(rest.take_spec _).1, (rest'.take_spec _).1, hbehind]

/-! ### What was written -/

theorem splitOnce_append {sep : Char} {before : Text} (h : sep ∉ before) (after : Text) :
    splitOnce sep (before ++ sep :: after) = some (before, after) := by
  induction before with
  | nil => simp [splitOnce]
  | cons c before ih =>
    rw [List.mem_cons, not_or] at h
    rw [List.cons_append, splitOnce, if_neg fun heq => h.1 heq.symm, ih h.2]
    rfl

theorem splitOnce_eq_some {sep : Char} {text before after : Text}
    (h : splitOnce sep text = some (before, after)) :
    text = before ++ sep :: after ∧ sep ∉ before := by
  induction text generalizing before after with
  | nil => cases h
  | cons c cs ih =>
    rw [splitOnce] at h
    split at h
    · next hsep =>
      cases h
      rw [hsep, List.nil_append]
      exact ⟨rfl, List.not_mem_nil⟩
    · next hsep =>
      obtain ⟨⟨init, rest⟩, hcut, heq⟩ := Option.map_eq_some_iff.mp h
      cases heq
      obtain ⟨hcs, hinit⟩ := ih hcut
      rw [hcs, List.cons_append]
      exact ⟨rfl, List.not_mem_cons_of_ne_of_not_mem (Ne.symm hsep) hinit⟩

theorem dropWhile_white {pad : Text} (h : ∀ c ∈ pad, Text.isWhite c = true) (s : Text) :
    (pad ++ s).dropWhile Text.isWhite = s.dropWhile Text.isWhite := by
  induction pad with
  | nil => rfl
  | cons c pad ih =>
    rw [List.forall_mem_cons] at h
    rw [List.cons_append, List.dropWhile_cons_of_pos h.1, ih h.2]

/-- White space around a value is not part of it. -/
theorem trim_padded {left right : Text} (hleft : ∀ c ∈ left, Text.isWhite c = true)
    (hright : ∀ c ∈ right, Text.isWhite c = true) (s : Text) :
    Text.trim (left ++ s ++ right) = Text.trim s := by
  have hright' : ∀ c ∈ right.reverse, Text.isWhite c = true := by
    intro c hc
    exact hright c (List.mem_reverse.mp hc)
  rw [Text.trim, Text.trim, List.append_assoc, dropWhile_white hleft]
  by_cases hwhite : s.dropWhile Text.isWhite = []
  · have hall : ∀ c ∈ s, Text.isWhite c = true := List.dropWhile_eq_nil_iff.mp hwhite
    rw [dropWhile_white hall, hwhite, List.dropWhile_eq_nil_iff.mpr hright]
  · rw [List.dropWhile_append, if_neg (by simpa [List.isEmpty_iff] using hwhite),
      List.reverse_append, dropWhile_white hright']

/-- A word in front of a line is its first word. -/
theorem splitWhitespace_word {word : Text} (hne : word ≠ [])
    (hword : ∀ c ∈ word, Text.isWhite c = false) (rest : Text) :
    Text.splitWhitespace (word ++ ' ' :: rest) = word :: Text.splitWhitespace rest := by
  rw [Text.splitWhitespace, Text.splitWhitespace,
    List.splitOnP_append_cons_of_forall_mem (by simpa using hword) ' ' (by decide),
    List.filter_cons_of_pos]
  simpa using hne

structure Header where
  name : Text
  value : Text
  name_plain : ':' ∉ name ∧ '\n' ∉ name
  value_plain : '\n' ∉ value

/-- The line of a header, up to its line feed. -/
def Header.text (h : Header) : Text := h.name ++ ':' :: (' ' :: (h.value ++ ['\r']))

/-- A request in front of its body. -/
structure Message where
  method : Text
  target : Text
  version : Text
  headers : List Header
  method_word : method ≠ [] ∧ ∀ c ∈ method, Text.isWhite c = false
  target_word : target ≠ [] ∧ ∀ c ∈ target, Text.isWhite c = false
  version_plain : '\n' ∉ version

/-- The request line, up to its line feed. -/
def Message.text (m : Message) : Text :=
  m.method ++ ' ' :: (m.target ++ ' ' :: (m.version ++ ['\r']))

def Message.bytes (m : Message) : List UInt8 :=
  lineBytes m.text ++ m.headers.flatMap (fun h => lineBytes h.text) ++ lineBytes ['\r']

/-- The headers, one after the other. -/
def Message.head (m : Message) : Head :=
  m.headers.foldl (fun head h => head.header h.name h.value) ⟨0, none⟩

theorem readLine_written {r : BufReader} {line : Text} {rest : List UInt8} (hline : '\n' ∉ line)
    (h : r.bytes = lineBytes line ++ rest) :
    (readLine r).1 = .ok (line ++ ['\n']) ∧ (readLine r).2.bytes = rest := by
  obtain ⟨hgot, hrest⟩ := BufReader.readUntil_spec 8191 newline r
  have hcut : untilByte newline r.bytes = (lineBytes line, rest) := by
    rw [h, lineBytes_eq, List.append_assoc, List.singleton_append,
      untilByte_append (newline_not_mem_asBytes hline)]
  rw [hcut] at hgot hrest
  exact ⟨by rw [readLine, hgot, lineBytes, readToString_asBytes], hrest⟩

theorem Header.newline_not_mem (h : Header) : '\n' ∉ h.text := by
  simp [Header.text, h.name_plain.2, h.value_plain]

/-- A header's line says what the header does. -/
theorem Header.line_text (h : Header) (head : Head) :
    head.line (h.text ++ ['\n']) = head.header h.name h.value := by
  have hsplit : h.text ++ ['\n'] = h.name ++ ':' :: ([' '] ++ h.value ++ ['\r', '\n']) := by
    simp [Header.text]
  have htrim : Text.trim ([' '] ++ h.value ++ ['\r', '\n']) = Text.trim h.value :=
    trim_padded (List.forall_mem_singleton.mpr (by decide))
      (List.forall_mem_cons.mpr ⟨by decide, List.forall_mem_singleton.mpr (by decide)⟩) h.value
  rw [Head.line, hsplit, splitOnce_append h.name_plain.1]
  simp only [Head.header, htrim]

theorem readHead_written (headers : List Header) {head : Head} {r : BufReader} {rest : List UInt8}
    (h : r.bytes = headers.flatMap (fun h => lineBytes h.text) ++ lineBytes ['\r'] ++ rest) :
    ∃ next, readHead head r =
      (.ok (headers.foldl (fun head h => head.header h.name h.value) head), next) ∧
        next.bytes = rest := by
  induction headers generalizing head r with
  | nil =>
    obtain ⟨hline, hrest⟩ := readLine_written (by decide) h
    exact ⟨_, readHead_end hline (.inr (.inl rfl)), hrest⟩
  | cons x headers ih =>
    rw [List.flatMap_cons, List.append_assoc, List.append_assoc] at h
    obtain ⟨hline, hrest⟩ := readLine_written x.newline_not_mem h
    have hcolon : ':' ∈ x.text ++ ['\n'] := by simp [Header.text]
    have hmore : ¬(x.text ++ ['\n'] = "\r\n".toList ∨ x.text ++ ['\n'] = "\n".toList) := by
      rintro (heq | heq)
      · rw [heq] at hcolon
        revert hcolon
        decide
      · rw [heq] at hcolon
        revert hcolon
        decide
    rw [readHead_line hline (by simp) hmore, x.line_text]
    exact ih (by rw [hrest, List.append_assoc])

theorem Message.newline_not_mem (m : Message) : '\n' ∉ m.text := by
  have hword : ∀ {word : Text}, (∀ c ∈ word, Text.isWhite c = false) → '\n' ∉ word := by
    intro word h hmem
    have hwhite := h '\n' hmem
    revert hwhite
    decide
  simp [Message.text, hword m.method_word.2, hword m.target_word.2, m.version_plain]

/-- **What was written is read.** -/
theorem readRequest_written (m : Message) (rest : List UInt8) (script : List Answer) :
    readRequest ⟨m.bytes ++ rest, script⟩ =
      if m.head.contentLength > maxBody then .error (overLimitText m.head.contentLength)
      else if rest.length < m.head.contentLength then .error "failed to fill whole buffer".toList
      else .ok ⟨m.method, routePath m.target, rest.take m.head.contentLength, m.head.token⟩ := by
  have hstart : (BufReader.mk [] ⟨m.bytes ++ rest, script⟩).bytes =
      lineBytes m.text ++ (m.headers.flatMap (fun h => lineBytes h.text) ++ lineBytes ['\r'] ++
        rest) := by
    simp [BufReader.bytes, Message.bytes]
  obtain ⟨hline, hrest⟩ := readLine_written m.newline_not_mem hstart
  obtain ⟨next, hhead, hnext⟩ : ∃ next, readHead ⟨0, none⟩
      (readLine ⟨[], ⟨m.bytes ++ rest, script⟩⟩).2 = (.ok m.head, next) ∧ next.bytes = rest :=
    readHead_written m.headers hrest
  have hwords : Text.splitWhitespace (m.text ++ ['\n']) =
      m.method :: m.target :: Text.splitWhitespace (m.version ++ ['\r'] ++ ['\n']) := by
    have htext : m.text ++ ['\n'] =
        m.method ++ ' ' :: (m.target ++ ' ' :: (m.version ++ ['\r'] ++ ['\n'])) := by
      simp [Message.text]
    rw [htext, splitWhitespace_word m.method_word.1 m.method_word.2,
      splitWhitespace_word m.target_word.1 m.target_word.2]
  unfold readRequest
  rw [hline]
  simp only [hhead, hwords, (next.take_spec _).1, hnext, List.length_take]
  by_cases hshort : rest.length < m.head.contentLength
  · have hmin : min m.head.contentLength rest.length < m.head.contentLength := by omega
    rw [if_pos hshort, if_pos hmin]
  · have hmin : ¬min m.head.contentLength rest.length < m.head.contentLength := by omega
    rw [if_neg hshort, if_neg hmin]
    rfl

/-! ### Which header counts -/

/-- The last header under one of these names, in any case. -/
def lastNamed (names : List Text) (headers : List Header) : Option Header :=
  headers.reverse.find? fun h => names.any fun name => eqIgnoreAsciiCase h.name name

def lengthName : Text := "content-length".toList

def tokenNames : List Text := ["authorization".toList, "x-api-key".toList]

/-- The token in a header that may hold one. -/
def Header.token (h : Header) : Option Text :=
  if eqIgnoreAsciiCase h.name "authorization".toList then bearer h.value.trim
  else some h.value.trim

theorem lastNamed_concat (names : List Text) (headers : List Header) (h : Header) :
    lastNamed names (headers ++ [h]) =
      if names.any fun name => eqIgnoreAsciiCase h.name name then some h
      else lastNamed names headers := by
  rw [lastNamed, List.reverse_append, List.reverse_singleton, List.singleton_append,
    List.find?_cons]
  split <;> simp_all [lastNamed]

theorem Head.header_contentLength (head : Head) (h : Header) :
    (head.header h.name h.value).contentLength =
      if eqIgnoreAsciiCase h.name lengthName then (parseUsize h.value.trim).getD 0
      else head.contentLength := rfl

theorem Head.header_token (head : Head) (h : Header) :
    (head.header h.name h.value).token =
      if tokenNames.any fun name => eqIgnoreAsciiCase h.name name then h.token
      else head.token := by
  simp only [Head.header, Header.token, tokenNames, List.any_cons, List.any_nil, Bool.or_false,
    Bool.or_eq_true]
  by_cases hauth : eqIgnoreAsciiCase h.name "authorization".toList = true
  · rw [if_pos hauth, if_pos (.inl hauth), if_pos hauth]
  · by_cases hkey : eqIgnoreAsciiCase h.name "x-api-key".toList = true
    · rw [if_neg hauth, if_pos hkey, if_pos (.inr hkey), if_neg hauth]
    · rw [if_neg hauth, if_neg hkey, if_neg (not_or.mpr ⟨hauth, hkey⟩)]

/-- The last header of its kind decides, the last of two for the token. -/
theorem Message.head_eq (m : Message) :
    m.head.contentLength =
        ((lastNamed [lengthName] m.headers).map fun h => (parseUsize h.value.trim).getD 0).getD 0 ∧
      m.head.token = (lastNamed tokenNames m.headers).bind Header.token := by
  unfold Message.head
  generalize m.headers = headers
  induction headers using List.reverseRecOn with
  | nil => exact ⟨rfl, rfl⟩
  | append_singleton headers h ih =>
    obtain ⟨hlength, htoken⟩ := ih
    rw [List.foldl_append, List.foldl_cons, List.foldl_nil, lastNamed_concat, lastNamed_concat,
      Head.header_contentLength, Head.header_token, hlength, htoken, List.any_cons, List.any_nil,
      Bool.or_false]
    constructor
    · by_cases hname : eqIgnoreAsciiCase h.name lengthName = true
      · rw [if_pos hname, if_pos hname, Option.map_some, Option.getD_some]
      · rw [if_neg hname, if_neg hname]
    · by_cases hname : (tokenNames.any fun name => eqIgnoreAsciiCase h.name name) = true
      · rw [if_pos hname, if_pos hname, Option.bind_some]
      · rw [if_neg hname, if_neg hname]

/-- **Requests are read as they were written.** In whatever pieces a connection hands out
    its bytes, the request is the same. A request line, its headers and whatever stands
    behind them give the method, the path without its query, as many bytes as the last
    `Content-Length` says, if there are so many and no more than the limit, and the token
    of the last header that may hold one. -/
theorem requests_read_back (m : Message) (rest : List UInt8) :
    (∀ bytes script, readRequest ⟨bytes, script⟩ = readRequest ⟨bytes, []⟩) ∧
      ∀ script,
        let length := ((lastNamed [lengthName] m.headers).map
          fun h => (parseUsize h.value.trim).getD 0).getD 0
        readRequest ⟨m.bytes ++ rest, script⟩ =
          if length > maxBody then .error (overLimitText length)
          else if rest.length < length then .error "failed to fill whole buffer".toList
          else .ok ⟨m.method, routePath m.target, rest.take length,
            (lastNamed tokenNames m.headers).bind Header.token⟩ := by
  refine ⟨readRequest_script, ?_⟩
  intro script
  obtain ⟨hlength, htoken⟩ := m.head_eq
  dsimp only
  rw [readRequest_written, hlength, htoken]

end AiDaemon.ShimHttp
