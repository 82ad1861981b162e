import AiDaemon.Text

/-!
# JSON

Values, the compact text `serde_json` writes for one, and its reader.  The
reader is the one of `serde_json`: it skips white space, refuses a raw control
character in a string and an escaped surrogate that stands alone, refuses a
number out of the range of a double, lets the last of two equal keys win, and
counts down a depth so that no text nests deeper than 127.

An integer that fits 64 bits is kept as one.  Every other number is a double,
and doubles are a parameter: what is asked of `Floats` is stated where it is
needed.

Two notions carry the proofs about texts that are put together from parts.
`Reads` says that a text is read as a value whatever follows it, and `Fails`
that it is refused whatever follows; both are kept by arrays and objects.
-/

namespace AiDaemon.Json

/-! ### Values -/

/-- A number: an integer of 64 bits, or a double.  `negInt n` is `-(n + 1)`. -/
inductive Number (F : Type) where
  | posInt (n : UInt64)
  | negInt (n : Fin (2 ^ 63))
  | float (f : F)

inductive Value (F : Type) where
  | null
  | bool (b : Bool)
  | num (n : Number F)
  | str (s : Text)
  | arr (items : List (Value F))
  | obj (members : List (Text × Value F))

/-- Finite doubles, as they are read and written.  `read` answers for the text
    of a whole number literal, and refuses one that is out of range. -/
structure Floats (F : Type) where
  read : Text → Option F
  write : F → Text

variable {F : Type}

/-- `Map::get`. -/
def lookup (key : Text) (members : List (Text × Value F)) : Option (Value F) :=
  (members.find? fun member => member.1 = key).map Prod.snd

/-- `Value::get` with a key. -/
def Value.get (key : Text) : Value F → Option (Value F)
  | .obj members => lookup key members
  | _ => none

/-- `Value::as_str`. -/
def Value.asStr : Value F → Option Text
  | .str s => some s
  | _ => none

/-- `Value::as_array`. -/
def Value.asArray : Value F → Option (List (Value F))
  | .arr items => some items
  | _ => none

/-- `Value::as_u64`. -/
def Value.asU64 : Value F → Option UInt64
  | .num (.posInt n) => some n
  | _ => none

/-- `Value::get` with an index. -/
def Value.item (i : Nat) : Value F → Option (Value F)
  | .arr items => items[i]?
  | _ => none

/-- `Map::insert`, into members that are in the order of their keys. -/
def insertMember (key : Text) (v : Value F) : List (Text × Value F) → List (Text × Value F)
  | [] => [(key, v)]
  | member :: members =>
    if key = member.1 then (key, v) :: members
    else if key < member.1 then (key, v) :: member :: members
    else member :: insertMember key v members

/-- The members of an object as they were read, filed under their keys. -/
def collectMembers (members : List (Text × Value F)) : List (Text × Value F) :=
  members.foldl (fun filed member => insertMember member.1 member.2 filed) []

/-! ### Writing -/

/-- A character inside a string. -/
def escape (c : Char) : Text :=
  if c = '"' then ['\\', '"']
  else if c = '\\' then ['\\', '\\']
  else if c = '\n' then ['\\', 'n']
  else if c = '\r' then ['\\', 'r']
  else if c = '\t' then ['\\', 't']
  else if c = '\x08' then ['\\', 'b']
  else if c = '\x0c' then ['\\', 'f']
  else if c.toNat < 32 then
    ['\\', 'u', '0', '0', (c.toNat / 16).digitChar, (c.toNat % 16).digitChar]
  else [c]

/-- The rest of a string, after its opening quote. -/
def writeString (s : Text) : Text := s.flatMap escape ++ ['"']

variable (floats : Floats F)

def writeNumber : Number F → Text
  | .posInt n => Text.ofNat n.toNat
  | .negInt n => '-' :: Text.ofNat (n.val + 1)
  | .float f => floats.write f

mutual

/-- `to_string`. -/
def write : Value F → Text
  | .null => "null".toList
  | .bool true => "true".toList
  | .bool false => "false".toList
  | .num n => writeNumber floats n
  | .str s => '"' :: writeString s
  | .arr [] => "[]".toList
  | .arr (v :: vs) => '[' :: (write v ++ writeItems vs)
  | .obj [] => "\x7b\x7d".toList
  | .obj ((key, v) :: members) =>
    '\x7b' :: '"' :: (writeString key ++ ':' :: (write v ++ writeMembers members))

/-- The items after the first, up to the closing bracket. -/
def writeItems : List (Value F) → Text
  | [] => [']']
  | v :: vs => ',' :: (write v ++ writeItems vs)

/-- The members after the first, up to the closing brace. -/
def writeMembers : List (Text × Value F) → Text
  | [] => ['\x7d']
  | (key, v) :: members =>
    ',' :: '"' :: (writeString key ++ ':' :: (write v ++ writeMembers members))

end

/-! ### Reading -/

def isWs (c : Char) : Bool := c = ' ' || c = '\n' || c = '\t' || c = '\r'

def skipWs (text : Text) : Text := text.dropWhile isWs

def hexDigit (c : Char) : Option Nat :=
  if '0' ≤ c ∧ c ≤ '9' then some (c.toNat - 48)
  else if 'a' ≤ c ∧ c ≤ 'f' then some (c.toNat - 87)
  else if 'A' ≤ c ∧ c ≤ 'F' then some (c.toNat - 55)
  else none

/-- The number four hexadecimal digits stand for. -/
def hex4 (a b c d : Char) : Option Nat :=
  match hexDigit a, hexDigit b, hexDigit c, hexDigit d with
  | some a, some b, some c, some d => some (((a * 16 + b) * 16 + c) * 16 + d)
  | _, _, _, _ => none

def unescape : Char → Option Char
  | '"' => some '"'
  | '\\' => some '\\'
  | '/' => some '/'
  | 'b' => some '\x08'
  | 'f' => some '\x0c'
  | 'n' => some '\n'
  | 'r' => some '\r'
  | 't' => some '\t'
  | _ => none

/-- What a `\u` escape makes, after a leading surrogate or on its own: nothing
    yet when it is a leading surrogate itself, and an error when a surrogate
    stands alone. -/
def scalar (lead : Option Nat) (n : Nat) : Option (Option Char) :=
  match lead with
  | some hi =>
    if 0xDC00 ≤ n ∧ n ≤ 0xDFFF then
      some (some (.ofNat ((hi - 0xD800) * 0x400 + (n - 0xDC00) + 0x10000)))
    else none
  | none =>
    if 0xDC00 ≤ n ∧ n ≤ 0xDFFF then none
    else if 0xD800 ≤ n ∧ n ≤ 0xDBFF then some none
    else some (some (.ofNat n))

/-- The rest of a string, after its opening quote.  `lead` is a leading
    surrogate that waits for its other half. -/
def readString (lead : Option Nat) : Text → Option (Text × Text)
  | [] => none
  | '"' :: rest => if lead = none then some ([], rest) else none
  | '\\' :: 'u' :: a :: b :: c :: d :: rest =>
    match hex4 a b c d with
    | none => none
    | some n =>
      match scalar lead n with
      | none => none
      | some none => readString (some n) rest
      | some (some made) => (readString none rest).map fun (s, rest) => (made :: s, rest)
  | '\\' :: c :: rest =>
    match lead, unescape c with
    | none, some made => (readString none rest).map fun (s, rest) => (made :: s, rest)
    | _, _ => none
  | c :: rest =>
    if lead = none ∧ 32 ≤ c.toNat then
      (readString none rest).map fun (s, rest) => (c :: s, rest)
    else none

/-- One or more digits. -/
def lexDigits (text : Text) : Option (Text × Text) :=
  if text.takeWhile Char.isDigit = [] then none
  else some (text.takeWhile Char.isDigit, text.dropWhile Char.isDigit)

/-- The whole part: no zero before another digit. -/
def lexWhole (text : Text) : Option (Text × Text) :=
  (lexDigits text).filter fun (digits, _) => digits.head? ≠ some '0' || digits.length = 1

def lexFraction : Text → Option (Text × Text)
  | '.' :: rest => (lexDigits rest).map fun (digits, rest) => ('.' :: digits, rest)
  | text => some ([], text)

def lexExponent (text : Text) : Option (Text × Text) :=
  match text with
  | c :: rest =>
    if c = 'e' ∨ c = 'E' then
      match rest with
      | '+' :: rest => (lexDigits rest).map fun (digits, rest) => (c :: '+' :: digits, rest)
      | '-' :: rest => (lexDigits rest).map fun (digits, rest) => (c :: '-' :: digits, rest)
      | rest => (lexDigits rest).map fun (digits, rest) => (c :: digits, rest)
    else some ([], text)
  | [] => some ([], [])

def lexUnsigned (text : Text) : Option (Text × Text) := do
  let (whole, text) ← lexWhole text
  let (fraction, text) ← lexFraction text
  let (exponent, text) ← lexExponent text
  return (whole ++ fraction ++ exponent, text)

/-- The literal of a number, and what follows it. -/
def lexNumber : Text → Option (Text × Text)
  | '-' :: rest => (lexUnsigned rest).map fun (literal, rest) => ('-' :: literal, rest)
  | text => lexUnsigned text

/-- The number a literal stands for.  A zero with a sign is a double. -/
def readNumber (literal : Text) : Option (Number F) :=
  let asFloat := (floats.read literal).map .float
  match literal with
  | '-' :: digits =>
    if digits.all Char.isDigit then
      match Nat.ofDigitChars 10 digits 0 with
      | 0 => asFloat
      | m + 1 => if h : m < 2 ^ 63 then some (.negInt ⟨m, h⟩) else asFloat
    else asFloat
  | digits =>
    if digits.all Char.isDigit ∧ Nat.ofDigitChars 10 digits 0 < 2 ^ 64 then
      some (.posInt (.ofNat (Nat.ofDigitChars 10 digits 0)))
    else asFloat

/-- A value that opens no bracket. -/
def readScalar : Text → Option (Value F × Text)
  | 'n' :: rest => ("ull".toList.isPrefixOf? rest).map fun rest => (.null, rest)
  | 't' :: rest => ("rue".toList.isPrefixOf? rest).map fun rest => (.bool true, rest)
  | 'f' :: rest => ("alse".toList.isPrefixOf? rest).map fun rest => (.bool false, rest)
  | '"' :: rest => (readString none rest).map fun (s, rest) => (.str s, rest)
  | text =>
    (lexNumber text).bind fun (literal, rest) =>
      (readNumber floats literal).map fun n => (.num n, rest)

mutual

/-- A value, with `depth` counted down at every bracket. -/
def readValue : Nat → Nat → Text → Option (Value F × Text)
  | 0, _, _ => none
  | fuel + 1, depth, text =>
    match skipWs text with
    | '[' :: rest =>
      if depth ≤ 1 then none
      else
        match skipWs rest with
        | ']' :: rest => some (.arr [], rest)
        | rest => (readItems fuel (depth - 1) rest).map fun (vs, rest) => (.arr vs, rest)
    | '\x7b' :: rest =>
      if depth ≤ 1 then none
      else
        match skipWs rest with
        | '\x7d' :: rest => some (.obj [], rest)
        | rest =>
          (readMembers fuel (depth - 1) rest).map fun (members, rest) =>
            (.obj (collectMembers members), rest)
    | text => readScalar floats text

/-- One item or more, and the closing bracket. -/
def readItems : Nat → Nat → Text → Option (List (Value F) × Text)
  | 0, _, _ => none
  | fuel + 1, depth, text =>
    (readValue fuel depth text).bind fun (v, rest) =>
      match skipWs rest with
      | ',' :: rest => (readItems fuel depth rest).map fun (vs, rest) => (v :: vs, rest)
      | ']' :: rest => some ([v], rest)
      | _ => none

/-- One member or more, and the closing brace. -/
def readMembers : Nat → Nat → Text → Option (List (Text × Value F) × Text)
  | 0, _, _ => none
  | fuel + 1, depth, text =>
    match skipWs text with
    | '"' :: rest =>
      (readString none rest).bind fun (key, rest) =>
        match skipWs rest with
        | ':' :: rest =>
          (readValue fuel depth rest).bind fun (v, rest) =>
            match skipWs rest with
            | ',' :: rest =>
              (readMembers fuel depth rest).map fun (members, rest) => ((key, v) :: members, rest)
            | '\x7d' :: rest => some ([(key, v)], rest)
            | _ => none
        | _ => none
    | _ => none

end

/-- The depth a reader starts with. -/
def recursionLimit : Nat := 128

/-- `from_str`: one value, and nothing but white space after it. -/
def fromStr (text : Text) : Option (Value F) :=
  (readValue floats (2 * text.length + 1) recursionLimit text).bind fun (v, rest) =>
    if skipWs rest = [] then some v else none

end AiDaemon.Json
