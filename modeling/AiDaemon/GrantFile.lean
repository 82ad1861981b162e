import AiDaemon.Json
import AiDaemon.Ledger
import Mathlib.Data.Char
import Mathlib.Data.List.Lex

/-!
# The grants file (`policy.rs`: `GrantFile`, `load_grants`, `save_grants`)

The grant table is written as a JSON document, sorted by identity and
capability, and read back as a table keyed by the two.  The JSON library is a
parameter, `GrantJson`, of which one thing is asked: it reads back what it has
written.  Whatever the order in which a snapshot lists the table, its document
loads to the table (`loadGrants_grantText`).

The document itself, as `to_string_pretty` lays it out, is spelled out in
`prettyJson` with a reader for that layout.
-/

namespace AiDaemon.Grants

open Ledger
open Json (escape writeString)

inductive Decision where
  | allow
  | deny
deriving DecidableEq, Repr

structure Grant where
  identity : Text
  capability : Text
  decision : Decision
  decidedAt : Nat
  via : Text
deriving DecidableEq, Repr

/-- What the table is keyed by. -/
def Grant.key (grant : Grant) : Text × Text := (grant.identity, grant.capability)

abbrev GrantTable := Table (Text × Text) Grant

/-- `serde_json` on a `GrantFile`. It reads back what it has written. -/
structure GrantJson where
  toStringPretty : List Grant → Text
  fromStr : Text → Option (List Grant)
  reads : ∀ grants, fromStr (toStringPretty grants) = some grants

/-- `load_grants`. A file that is missing or unreadable is an empty table. -/
def loadGrants (json : GrantJson) (file : Option Text) : GrantTable :=
  match file with
  | none => ∅
  | some text =>
    match json.fromStr text with
    | some grants => collect Grant.key grants
    | none => ∅

/-- The order of `(identity, capability)`. -/
def Grant.le (a b : Grant) : Bool :=
  a.identity < b.identity ∨ (a.identity = b.identity ∧ a.capability ≤ b.capability)

/-- The text `save_grants` writes for a snapshot. -/
def grantText (json : GrantJson) (snapshot : List Grant) : Text :=
  json.toStringPretty (snapshot.mergeSort Grant.le)

/-- A snapshot of a keyed table, taken and sorted in any order, loads to it. -/
theorem loadGrants_grantText (json : GrantJson) {grants : GrantTable}
    (hkeyed : Keyed Grant.key grants) {snapshot : List Grant}
    (hperm : snapshot.Perm (values grants)) (key : Text × Text) :
    (loadGrants json (some (grantText json snapshot))).lookup key = grants.lookup key := by
  simp only [loadGrants, grantText, json.reads]
  exact lookup_collect_values hkeyed ((List.mergeSort_perm _ _).trans hperm) key

theorem keyed_loadGrants (json : GrantJson) (file : Option Text) :
    Keyed Grant.key (loadGrants json file) := by
  unfold loadGrants
  split
  · exact keyed_empty _
  · split
    · exact keyed_collect _ _
    · exact keyed_empty _

/-! ### The document -/

def writeDecision : Decision → Text
  | .allow => "allow\"".toList
  | .deny => "deny\"".toList

def writeGrant (grant : Grant) : Text :=
  '\n' :: ("    \x7b\n      \"identity\": \"".toList ++ (writeString grant.identity ++
    (",\n      \"capability\": \"".toList ++ (writeString grant.capability ++
      (",\n      \"decision\": \"".toList ++ (writeDecision grant.decision ++
        (",\n      \"decided_at\": ".toList ++ (Text.ofNat grant.decidedAt ++
          ',' :: ("\n      \"via\": \"".toList ++ (writeString grant.via ++
            "\n    \x7d".toList))))))))))

/-- The entries of the array, with the commas between them. -/
def writeGrants : List Grant → Text
  | [] => []
  | [grant] => writeGrant grant ++ "\n  ".toList
  | grant :: grants => writeGrant grant ++ ',' :: writeGrants grants

def writeFile (grants : List Grant) : Text :=
  "\x7b\n  \"grants\": [".toList ++ (writeGrants grants ++ ']' :: "\n\x7d".toList)

/-! ### Reading it back -/

def unescape : Char → Char
  | 'n' => '\n'
  | 'r' => '\r'
  | 't' => '\t'
  | 'b' => '\x08'
  | 'f' => '\x0c'
  | c => c

def hexValue (c : Char) : Nat := if c.isDigit then c.toNat - 48 else c.toNat - 87

/-- One character of a JSON string. -/
def readChar : Text → Option (Char × Text)
  | '\\' :: 'u' :: _ :: _ :: a :: b :: rest => some (.ofNat (16 * hexValue a + hexValue b), rest)
  | '\\' :: c :: rest => some (unescape c, rest)
  | c :: rest => some (c, rest)
  | [] => none

def readString : Nat → Text → Option (Text × Text)
  | 0, _ => none
  | fuel + 1, text =>
    if text.head? = some '"' then some ([], text.tail)
    else
      (readChar text).bind fun (c, rest) =>
        (readString fuel rest).map fun (s, rest) => (c :: s, rest)

def readDecision (text : Text) : Option (Decision × Text) :=
  match (writeDecision .allow).isPrefixOf? text with
  | some rest => some (.allow, rest)
  | none => ((writeDecision .deny).isPrefixOf? text).map fun rest => (.deny, rest)

def readNat (text : Text) : Nat × Text :=
  (Nat.ofDigitChars 10 (text.takeWhile Char.isDigit) 0, text.dropWhile Char.isDigit)

def readGrant (text : Text) : Option (Grant × Text) := do
  let text ← ['\n'].isPrefixOf? text
  let text ← "    \x7b\n      \"identity\": \"".toList.isPrefixOf? text
  let (identity, text) ← readString text.length text
  let text ← ",\n      \"capability\": \"".toList.isPrefixOf? text
  let (capability, text) ← readString text.length text
  let text ← ",\n      \"decision\": \"".toList.isPrefixOf? text
  let (decision, text) ← readDecision text
  let text ← ",\n      \"decided_at\": ".toList.isPrefixOf? text
  let (decidedAt, text) := readNat text
  let text ← [','].isPrefixOf? text
  let text ← "\n      \"via\": \"".toList.isPrefixOf? text
  let (via, text) ← readString text.length text
  let text ← "\n    \x7d".toList.isPrefixOf? text
  return (⟨identity, capability, decision, decidedAt, via⟩, text)

def readGrants : Nat → Text → Option (List Grant × Text)
  | 0, _ => none
  | fuel + 1, text =>
    if text.head? = some ']' then some ([], text)
    else
      (readGrant text).bind fun (grant, rest) =>
        match rest with
        | ',' :: rest => (readGrants fuel rest).map fun (grants, rest) => (grant :: grants, rest)
        | rest => ("\n  ".toList.isPrefixOf? rest).map fun rest => ([grant], rest)

def readFile (text : Text) : Option (List Grant) := do
  let text ← "\x7b\n  \"grants\": [".toList.isPrefixOf? text
  let (grants, text) ← readGrants text.length text
  if text = ']' :: "\n\x7d".toList then some grants else none

/-! ### The round trip -/

theorem isPrefixOf?_cons (c : Char) (rest : Text) : [c].isPrefixOf? (c :: rest) = some rest :=
  Text.isPrefixOf?_append [c] rest

theorem hexValue_digitChar : ∀ n < 16, hexValue n.digitChar = n := by decide

theorem readChar_escape (c : Char) (rest : Text) :
    readChar (escape c ++ rest) = some (c, rest) := by
  unfold escape
  split_ifs with hquote hslash hn hr ht hb hf hcontrol
  · subst hquote; rfl
  · subst hslash; rfl
  · subst hn; rfl
  · subst hr; rfl
  · subst ht; rfl
  · subst hb; rfl
  · subst hf; rfl
  · -- a control character comes back from its two digits
    have hhigh : hexValue (c.toNat / 16).digitChar = c.toNat / 16 :=
      hexValue_digitChar _ (by omega)
    have hlow : hexValue (c.toNat % 16).digitChar = c.toNat % 16 :=
      hexValue_digitChar _ (by omega)
    have hsum : 16 * (c.toNat / 16) + c.toNat % 16 = c.toNat := by omega
    simp only [List.cons_append, List.nil_append, readChar, hhigh, hlow, hsum, Char.ofNat_toNat]
  · simp [readChar, hslash]

theorem escape_head (c : Char) : ∃ d ds, escape c = d :: ds ∧ d ≠ '"' := by
  unfold escape
  split_ifs with hquote
  all_goals exact ⟨_, _, rfl, by first | decide | exact hquote⟩

theorem readString_writeString (s rest : Text) {fuel : Nat} (hfuel : s.length < fuel) :
    readString fuel (writeString s ++ rest) = some (s, rest) := by
  induction s generalizing fuel with
  | nil =>
    cases fuel with
    | zero => simp at hfuel
    | succ fuel => simp [readString, writeString]
  | cons c s ih =>
    cases fuel with
    | zero => simp at hfuel
    | succ fuel =>
      obtain ⟨d, ds, hescape, hquote⟩ := escape_head c
      have hsplit : writeString (c :: s) ++ rest = escape c ++ (writeString s ++ rest) := by
        simp [writeString]
      have hhead : (writeString (c :: s) ++ rest).head? ≠ some '"' := by
        rw [hsplit, hescape]
        simpa using hquote
      have hshort : s.length < fuel := by
        rw [List.length_cons] at hfuel
        omega
      rw [readString, if_neg hhead, hsplit, readChar_escape]
      simp [ih hshort]

theorem length_writeString (s rest : Text) : s.length < (writeString s ++ rest).length := by
  induction s with
  | nil => simp [writeString]
  | cons c s ih =>
    obtain ⟨d, ds, hescape, -⟩ := escape_head c
    have hsplit : writeString (c :: s) ++ rest = d :: ds ++ (writeString s ++ rest) := by
      simp [writeString, hescape]
    rw [hsplit, List.length_append, List.length_cons, List.length_cons]
    omega

theorem readDecision_writeDecision (decision : Decision) (rest : Text) :
    readDecision (writeDecision decision ++ rest) = some (decision, rest) := by
  cases decision with
  | allow => simp [readDecision, Text.isPrefixOf?_append]
  | deny =>
    have hallow : (writeDecision .allow).isPrefixOf? (writeDecision .deny ++ rest) = none := rfl
    simp [readDecision, hallow, Text.isPrefixOf?_append]

theorem readNat_ofNat (n : Nat) (rest : Text) :
    readNat (Text.ofNat n ++ ',' :: rest) = (n, ',' :: rest) := by
  have hdigits : ∀ c ∈ Text.ofNat n, c.isDigit = true := fun c hc =>
    Nat.isDigit_of_mem_toDigits (by decide) (by decide) hc
  have htake : (Text.ofNat n ++ ',' :: rest).takeWhile Char.isDigit = Text.ofNat n := by
    rw [List.takeWhile_append_of_pos hdigits]
    simp
  have hdrop : (Text.ofNat n ++ ',' :: rest).dropWhile Char.isDigit = ',' :: rest := by
    rw [List.dropWhile_append_of_pos hdigits]
    rfl
  simp only [readNat, htake, hdrop]
  rw [Text.ofNat, Nat.ofDigitChars_ten_toDigits]

theorem readGrant_writeGrant (grant : Grant) (rest : Text) :
    readGrant (writeGrant grant ++ rest) = some (grant, rest) := by
  simp only [readGrant, writeGrant, List.cons_append, List.append_assoc, isPrefixOf?_cons,
    Text.isPrefixOf?_append, Option.bind_eq_bind, Option.bind_some,
    readString_writeString _ _ (length_writeString _ _), readDecision_writeDecision,
    readNat_ofNat, Option.pure_def]

theorem writeGrant_head (grant : Grant) (rest : Text) :
    (writeGrant grant ++ rest).head? = some '\n' := rfl

theorem readGrants_writeGrants (grants : List Grant) (rest : Text) {fuel : Nat}
    (hfuel : grants.length < fuel) :
    readGrants fuel (writeGrants grants ++ ']' :: rest) = some (grants, ']' :: rest) := by
  induction grants generalizing fuel with
  | nil =>
    cases fuel with
    | zero => simp at hfuel
    | succ fuel => simp [readGrants, writeGrants]
  | cons grant grants ih =>
    cases fuel with
    | zero => simp at hfuel
    | succ fuel =>
      cases grants with
      | nil =>
        have hsplit : writeGrants [grant] ++ ']' :: rest =
            writeGrant grant ++ ("\n  ".toList ++ ']' :: rest) := by
          simp [writeGrants]
        rw [readGrants, hsplit, writeGrant_head, if_neg (by decide), readGrant_writeGrant]
        rfl
      | cons second grants =>
        have hsplit : writeGrants (grant :: second :: grants) ++ ']' :: rest =
            writeGrant grant ++ (',' :: (writeGrants (second :: grants) ++ ']' :: rest)) := by
          simp [writeGrants]
        have hshort : (second :: grants).length < fuel := by
          rw [List.length_cons] at hfuel
          omega
        rw [readGrants, hsplit, writeGrant_head, if_neg (by decide), readGrant_writeGrant]
        simp [ih hshort]

theorem length_writeGrants (grants : List Grant) : grants.length ≤ (writeGrants grants).length := by
  have hpos : ∀ grant, 0 < (writeGrant grant).length := fun _ => Nat.succ_pos _
  induction grants with
  | nil => exact Nat.zero_le _
  | cons grant grants ih =>
    have hgrant := hpos grant
    cases grants with
    | nil =>
      rw [writeGrants, List.length_append, List.length_singleton]
      omega
    | cons second grants =>
      have hsplit : writeGrants (grant :: second :: grants) =
          writeGrant grant ++ ',' :: writeGrants (second :: grants) := rfl
      simp only [hsplit, List.length_append, List.length_cons] at ih ⊢
      omega

theorem readFile_writeFile (grants : List Grant) : readFile (writeFile grants) = some grants := by
  unfold readFile writeFile
  rw [Text.isPrefixOf?_append]
  generalize "\n\x7d".toList = ending
  have hfuel : grants.length < (writeGrants grants ++ ']' :: ending).length := by
    have hlength := length_writeGrants grants
    rw [List.length_append, List.length_cons]
    omega
  have hread := readGrants_writeGrants grants ending hfuel
  simp only [Option.bind_eq_bind, Option.bind_some, hread, if_true]

/-- The document as `to_string_pretty` lays it out, and a reader for it. -/
def prettyJson : GrantJson := ⟨writeFile, readFile, readFile_writeFile⟩

end AiDaemon.Grants
