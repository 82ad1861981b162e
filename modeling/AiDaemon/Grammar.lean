import AiDaemon.Gbnf
import AiDaemon.JsonWrite
import AiDaemon.Proto

/-!
# The decoding grammar

`compile` of `grammar.rs`: the JSON Schemas of the offered tools become rules of
one grammar, with a rule `call-i` and a rule `args-i` for the tool at `i` and a
numbered rule for every array and object below it.  What a schema says beyond
the supported subset is widened to any JSON value.

The rules are kept as expressions and `Compiled.gbnf` writes them down; the
quoted literals in them are the escaped texts the source formats.
-/

namespace AiDaemon.Grammar

open Json Gbnf Proto

/-- A map of `serde_json` holds every key once, in order. -/
structure Schema (F : Type) where
  value : Value F
  filed : value.Filed

/-! ### Rules -/

/-- The `kind` of a fresh rule. -/
inductive Kind where
  | array
  | obj
deriving DecidableEq

inductive RuleName where
  | root
  | call (index : Nat)
  | args (index : Nat)
  | fresh (index : Nat) (kind : Kind) (counter : Nat)
  | ws
  | string
  | char
  | hex
  | integer
  | number
  | boolean
  | object
  | array
  | json
deriving DecidableEq

def Kind.text : Kind → Text
  | array => "array".toList
  | obj => "obj".toList

def RuleName.text : RuleName → Text
  | root => "root".toList
  | call index => "call-".toList ++ Text.ofNat index
  | args index => "args-".toList ++ Text.ofNat index
  | fresh index kind counter =>
    't' :: (Text.ofNat index ++ '-' :: (kind.text ++ '-' :: Text.ofNat counter))
  | ws => "ws".toList
  | string => "string".toList
  | char => "char".toList
  | hex => "hex".toList
  | integer => "integer".toList
  | number => "number".toList
  | boolean => "boolean".toList
  | object => "object".toList
  | array => "array".toList
  | json => "json".toList

abbrev Body := Expr RuleName

structure Rule where
  name : RuleName
  body : Body

def Rule.text (rule : Rule) : Text :=
  rule.name.text ++ " ::= ".toList ++ render RuleName.text rule.body

/-- The body a name stands for: the first rule of that name. -/
def find (rules : List Rule) (name : RuleName) : Option Body :=
  (rules.find? fun rule => rule.name = name).map Rule.body

/-- `str::replace` of a character. -/
def replaceChar (c : Char) (made text : Text) : Text :=
  text.flatMap fun d => if d = c then made else [d]

def escapeGbnf (text : Text) : Text :=
  replaceChar '"' "\\\"".toList (replaceChar '\\' "\\\\".toList text)

/-! ### The preamble -/

def ws : Body := .rule .ws

def lit (quoted : String) : Body := .lit quoted.toList

def digits : Body := .set false [('0', '9')]

def singles (text : String) : List (Char × Char) := text.toList.map fun c => (c, c)

/-- `item (ws "," ws item)*` between brackets, or nothing between them. -/
def bracketed (opening item closing : Body) : Body :=
  seqs opening [ws, .opt (.group (.seq item (.star (.group (seqs ws [lit ",", ws, item]))))), ws,
    closing]

def preludeRules : List Rule :=
  [ ⟨.ws, .star (.set false (singles " \t\n"))⟩,
    ⟨.string, seqs (lit "\\\"") [.star (.rule .char), lit "\\\""]⟩,
    ⟨.char, .alt (.set true (singles "\"\\"))
      (.seq (lit "\\\\") (.group (.alt (.set false (singles "\"\\/bfnrt"))
        (seqs (lit "u") [.rule .hex, .rule .hex, .rule .hex, .rule .hex]))))⟩,
    ⟨.hex, .set false [('0', '9'), ('a', 'f'), ('A', 'F')]⟩,
    ⟨.integer, .seq (.opt (lit "-"))
      (.group (.alt (lit "0") (.seq (.set false [('1', '9')]) (.star digits))))⟩,
    ⟨.number, seqs (.rule .integer) [.opt (.group (.seq (lit ".") (.plus digits))),
      .opt (.group (seqs (.set false (singles "eE"))
        [.opt (.set false (singles "-+")), .plus digits]))]⟩,
    ⟨.boolean, .alt (lit "true") (lit "false")⟩,
    ⟨.object, seqs (lit "\x7b") [ws,
      .opt (.group (seqs (.rule .string) [ws, lit ":", ws, .rule .json,
      .star (.group (seqs ws [lit ",", ws, .rule .string, ws, lit ":", ws, .rule .json]))])), ws,
        lit "\x7d"]⟩,
    ⟨.array, bracketed (lit "[") (.rule .json) (lit "]")⟩,
    ⟨.json, alts (.rule .string) [.rule .number, .rule .object, .rule .array, .rule .boolean,
      lit "null"]⟩ ]

/-- Every rule on a line of its own. -/
def lines (rules : List Rule) : Text := rules.flatMap fun rule => rule.text ++ ['\n']

/-- `PRELUDE`. -/
def prelude : Text := '\n' :: lines preludeRules

/-! ### One schema -/

/-- The names `type` may have. -/
inductive JsonType where
  | string
  | integer
  | number
  | boolean
  | null
  | array
  | object
deriving DecidableEq

def JsonType.ofName (name : Text) : Option JsonType :=
  if name = "string".toList then some string
  else if name = "integer".toList then some integer
  else if name = "number".toList then some number
  else if name = "boolean".toList then some boolean
  else if name = "null".toList then some null
  else if name = "array".toList then some array
  else if name = "object".toList then some object
  else none

structure SubCompiler where
  rules : List Rule
  widened : Bool
  counter : Nat
  index : Nat

namespace SubCompiler

def widen (sub : SubCompiler) : SubCompiler := { sub with widened := true }

/-- A rule under a fresh name, and a reference to it. -/
def define (sub : SubCompiler) (kind : Kind) (body : Body) : Body × SubCompiler :=
  let name := RuleName.fresh sub.index kind (sub.counter + 1)
  (.rule name, { sub with rules := sub.rules ++ [⟨name, body⟩], counter := sub.counter + 1 })

end SubCompiler

/-- `(ws "," ws part)?` -/
def later (part : Body) : Body := .opt (.group (seqs ws [lit ",", ws, part]))

/-- One alternative for every optional part that may come first. -/
def firstOptional : List Body → List Body
  | [] => []
  | first :: rest => seqs first (rest.map later) :: firstOptional rest

def objectBody (required optional : List Body) : Body :=
  match required, optional with
  | [], [] => seqs (lit "\x7b") [ws, lit "\x7d"]
  | [], first :: rest =>
    seqs (lit "\x7b")
      [ws, .opt (.group (alts (seqs first (rest.map later)) (firstOptional rest))), ws, lit "\x7d"]
  | first :: rest, optional =>
    seqs (lit "\x7b")
      (ws :: first :: (rest.flatMap fun part => [ws, lit ",", ws, part]) ++ optional.map later ++
        [ws, lit "\x7d"])

/-- `"\"key\"" ws ":" ws value` -/
def pair (key : Text) (value : Body) : Body :=
  seqs (.lit ("\\\"".toList ++ escapeGbnf key ++ "\\\"".toList)) [ws, lit ":", ws, value]

variable {F : Type}

/-- The names under `required`. -/
def requiredNames (schema : List (Text × Value F)) : List Text :=
  match lookup "required".toList schema with
  | some (.arr names) => names.filterMap Value.asStr
  | _ => []

/-- The name under `type`. -/
def typeOf (schema : List (Text × Value F)) : Option JsonType :=
  ((lookup "type".toList schema).bind Value.asStr).bind JsonType.ofName

/-- The values under `enum`, when there are any. -/
def choicesOf (schema : List (Text × Value F)) : Option (Value F × List (Value F)) :=
  match lookup "enum".toList schema with
  | some (.arr (choice :: choices)) => some (choice, choices)
  | _ => none

/-- The schemas under `properties`. -/
def propertiesOf (schema : List (Text × Value F)) : Option (List (Text × Value F)) :=
  match lookup "properties".toList schema with
  | some (.obj properties) => some properties
  | _ => none

theorem sizeOf_lookup {key : Text} {members : List (Text × Value F)} {v : Value F}
    (h : lookup key members = some v) : sizeOf v < sizeOf members := by
  rw [lookup, Option.map_eq_some_iff] at h
  obtain ⟨member, hfind, rfl⟩ := h
  have hmem := List.sizeOf_lt_of_mem (List.mem_of_find?_eq_some hfind)
  obtain ⟨key, v⟩ := member
  simp only [Prod.mk.sizeOf_spec] at hmem
  show sizeOf v < sizeOf members
  omega

theorem choicesOf_eq_some {schema : List (Text × Value F)} {choice : Value F}
    {choices : List (Value F)} :
    choicesOf schema = some (choice, choices) ↔
      lookup "enum".toList schema = some (.arr (choice :: choices)) := by
  unfold choicesOf
  split
  · rename_i h
    rw [h]
    simp
  · rename_i h
    simpa using h choice choices

theorem propertiesOf_eq_some {schema properties : List (Text × Value F)} :
    propertiesOf schema = some properties ↔
      lookup "properties".toList schema = some (.obj properties) := by
  unfold propertiesOf
  split
  · rename_i h
    rw [h]
    simp
  · rename_i h
    simpa using h properties

theorem sizeOf_properties {schema properties : List (Text × Value F)}
    (h : propertiesOf schema = some properties) : sizeOf properties < sizeOf schema := by
  have hless := sizeOf_lookup (propertiesOf_eq_some.mp h)
  simp only [Value.obj.sizeOf_spec] at hless
  omega

variable (floats : Floats F)

/-- The literal of one value of an `enum`. -/
def literal (choice : Value F) : Body := .lit (escapeGbnf (write floats choice))

mutual

/-- `SubCompiler::value`. -/
def value : Value F → SubCompiler → Body × SubCompiler
  | .obj schema, sub =>
    match choicesOf schema with
    | some (choice, choices) =>
      (.group (alts (literal floats choice) (choices.map (literal floats))), sub)
    | none =>
      match typeOf schema with
      | some .string => (.rule .string, sub)
      | some .integer => (.rule .integer, sub)
      | some .number => (.rule .number, sub)
      | some .boolean => (.rule .boolean, sub)
      | some .null => (lit "null", sub)
      | some .array =>
        match _ : lookup "items".toList schema with
        | some items =>
          let item := value items sub
          item.2.define .array (bracketed (lit "[") item.1 (lit "]"))
        | none => sub.widen.define .array (bracketed (lit "[") (.rule .json) (lit "]"))
      | some .object => object schema sub
      | none => (.rule .json, sub.widen)
  | _, sub => (.rule .json, sub.widen)
termination_by schema => (sizeOf schema, 0)
decreasing_by
  · apply Prod.Lex.left
    have hless := sizeOf_lookup ‹_›
    simp only [Value.obj.sizeOf_spec]
    omega
  · apply Prod.Lex.left
    simp only [Value.obj.sizeOf_spec]
    omega

/-- `SubCompiler::object`. -/
def object (schema : List (Text × Value F)) (sub : SubCompiler) : Body × SubCompiler :=
  match _ : propertiesOf schema with
  | some properties =>
    let made := parts (requiredNames schema) properties sub
    made.2.define .obj (objectBody made.1.1 made.1.2)
  | none => (.rule .object, sub.widen)
termination_by (sizeOf schema, 0)
decreasing_by
  apply Prod.Lex.left
  exact sizeOf_properties ‹_›

/-- The loop over `properties`: the required pairs and the optional ones. -/
def parts (required : List Text) :
    List (Text × Value F) → SubCompiler → (List Body × List Body) × SubCompiler
  | [], sub => (([], []), sub)
  | (key, subschema) :: properties, sub =>
    let rule := value subschema sub
    let made := parts required properties rule.2
    if key ∈ required then ((pair key rule.1 :: made.1.1, made.1.2), made.2)
    else ((made.1.1, pair key rule.1 :: made.1.2), made.2)
termination_by properties => (sizeOf properties, 0)
decreasing_by
  · apply Prod.Lex.left
    simp only [List.cons.sizeOf_spec, Prod.mk.sizeOf_spec]
    omega
  · apply Prod.Lex.left
    simp only [List.cons.sizeOf_spec]
    omega

end

/-! ### All the tools -/

/-- The source keeps the text of the rules, which is `gbnf`. -/
structure Compiled where
  rules : List Rule
  names : List Text
  widened : Bool

def Compiled.gbnf (compiled : Compiled) : Text := lines compiled.rules ++ prelude

/-- What a name stands for in the compiled grammar. -/
def Compiled.grammar (compiled : Compiled) : RuleName → Option Body :=
  find (compiled.rules ++ preludeRules)

def isPlainChar (c : Char) : Bool := c.isAlphanum || c = '_' || c = '-'

/-- The call of a tool, with the name as it is: it is a plain identifier. -/
def callBody (name : Text) (index : Nat) : Body :=
  seqs (lit "\x7b") [ws, lit "\\\"name\\\"", ws, lit ":", ws,
    .lit ("\\\"".toList ++ name ++ "\\\"".toList), ws, lit ",", ws, lit "\\\"arguments\\\"", ws,
    lit ":", ws, .rule (.args index), ws, lit "\x7d"]

/-- The loop over the tools, from an index on.  `debug` is `{:?}` of a string. -/
def compileTools (debug : Text → Text) :
    Nat → List (ToolSchema (Schema F)) → List Rule × Bool → Except Text (List Rule × Bool)
  | _, [], made => .ok made
  | index, tool :: tools, (rules, widened) =>
    if tool.name.all isPlainChar then
      let (body, sub) := value floats tool.jsonSchema.value ⟨rules, widened, 0, index⟩
      compileTools debug (index + 1) tools
        (sub.rules ++ [⟨.args index, body⟩, ⟨.call index, callBody tool.name index⟩], sub.widened)
    else
      .error ("tool name ".toList ++ debug tool.name ++ " is not a plain identifier".toList)

/-- `compile`. -/
def compile (debug : Text → Text) : List (ToolSchema (Schema F)) → Except Text Compiled
  | [] => .error "no tools to compile".toList
  | tool :: tools => do
    let (rules, widened) ← compileTools floats debug 0 (tool :: tools) ([], false)
    let alternatives := (List.range' 1 tools.length).map fun index => Expr.rule (.call index)
    return ⟨⟨.root, alts (.rule (.call 0)) alternatives⟩ :: rules,
      (tool :: tools).map ToolSchema.name, widened⟩

end AiDaemon.Grammar
