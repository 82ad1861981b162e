import AiDaemon.Grammar

/-!
# Validation

What a JSON Schema asks of a value, as the keywords `type`, `enum`,
`properties`, `required` and `items` are documented.  All other keywords are a
parameter: the compiler looks at none of them.
-/

namespace AiDaemon.JsonSchema

open Json Grammar

variable {F : Type}

/-- The keywords the compiler does not look at, each with its argument and the
    schema it stands in, and the doubles that are whole numbers. -/
structure Keywords (F : Type) where
  other : Text → Value F → List (Text × Value F) → Value F → Prop
  whole : F → Prop

/-- The keywords whose meaning is fixed here. -/
def coreKeywords : List Text :=
  ["type".toList, "enum".toList, "properties".toList, "required".toList, "items".toList]

variable (keywords : Keywords F)

/-- A number without a fraction is an integer, however it is written. -/
def OfType : JsonType → Value F → Prop
  | .string, v => ∃ s, v = .str s
  | .integer, v => ∃ n, v = .num n ∧ ∀ f, n = .float f → keywords.whole f
  | .number, v => ∃ n, v = .num n
  | .boolean, v => ∃ b, v = .bool b
  | .null, v => v = .null
  | .array, v => ∃ vs, v = .arr vs
  | .object, v => ∃ members, v = .obj members

def OfNamedType (name : Text) (v : Value F) : Prop :=
  ∃ type, JsonType.ofName name = some type ∧ OfType keywords type v

/-- `type` is one name or several. -/
def TypeAllows : Value F → Value F → Prop
  | .str name, v => OfNamedType keywords name v
  | .arr names, v => ∃ name, .str name ∈ names ∧ OfNamedType keywords name v
  | _, _ => True

/-- Every keyword that is not a core one holds. -/
def OthersHold (schema : List (Text × Value F)) (v : Value F) : Prop :=
  ∀ key argument, (key, argument) ∈ schema → key ∉ coreKeywords →
    keywords.other key argument schema v

/-- The value validates against the schema.  Two objects are the same whatever
    the order of their members, so a choice is compared filed. -/
inductive Valid : Value F → Value F → Prop where
  | always {v : Value F} : Valid (.bool true) v
  | object {schema : List (Text × Value F)} {v : Value F} :
      (∀ type, lookup "type".toList schema = some type → TypeAllows keywords type v) →
      (∀ choices, lookup "enum".toList schema = some (.arr choices) → ∃ c ∈ choices, v = c.normal) →
      (∀ names members name, lookup "required".toList schema = some (.arr names) →
        v = .obj members → .str name ∈ names → (lookup name members).isSome) →
      (∀ properties members key subschema w,
        lookup "properties".toList schema = some (.obj properties) → v = .obj members →
        lookup key properties = some subschema → lookup key members = some w → Valid subschema w) →
      (∀ items vs w, lookup "items".toList schema = some items → v = .arr vs → w ∈ vs →
        Valid items w) →
      OthersHold keywords schema v → Valid (.obj schema) v

end AiDaemon.JsonSchema
