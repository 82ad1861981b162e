import AiDaemon.Grammar

/-!
# Shapes of schemas

What the compiler sees of a schema is a `Shape`: one of the supported types
with the shapes below it, or any JSON.  `value` finds the shape and then emits
rules for it (`value_eq_emit`), so that what is proved about the rules goes by
induction on shapes and looks at no keyword.

The rules emitted for a schema have names of their own (`emit_extends`), so a
reference to one of them is a reference to its body.
-/

namespace AiDaemon.Grammar

open Json Gbnf

/-- A declared property of an object. -/
structure Field (α : Type) where
  key : Text
  required : Bool
  value : α

inductive Shape (F : Type) where
  | any
  | anyObject
  | choice (choice : Value F) (choices : List (Value F))
  | string
  | integer
  | number
  | boolean
  | null
  | array (item : Shape F)
  | object (fields : List (Field (Shape F)))

variable {F : Type}

theorem Field.sizeOf_lt {field : Field (Shape F)} {fields : List (Field (Shape F))}
    (h : field ∈ fields) : sizeOf field.value < sizeOf (Shape.object fields) := by
  have hmem := List.sizeOf_lt_of_mem h
  obtain ⟨key, required, shape⟩ := field
  simp only [Field.mk.sizeOf_spec] at hmem
  simp only [Shape.object.sizeOf_spec]
  omega

/-- Induction on shapes, with a hypothesis for every field of an object. -/
@[elab_as_elim, induction_eliminator]
theorem Shape.induction {P : Shape F → Prop} (any : P .any) (anyObject : P .anyObject)
    (choice : ∀ c cs, P (.choice c cs)) (string : P .string) (integer : P .integer)
    (number : P .number) (boolean : P .boolean) (null : P .null)
    (array : ∀ item, P item → P (.array item))
    (object : ∀ fields, (∀ field ∈ fields, P field.value) → P (.object fields)) :
    ∀ shape, P shape
  | .any => any
  | .anyObject => anyObject
  | .choice c cs => choice c cs
  | .string => string
  | .integer => integer
  | .number => number
  | .boolean => boolean
  | .null => null
  | .array item =>
    array item (Shape.induction any anyObject choice string integer number boolean null array
      object item)
  | .object fields =>
    object fields fun field _ =>
      Shape.induction any anyObject choice string integer number boolean null array object
        field.value
termination_by shape => sizeOf shape
decreasing_by
  · simp only [Shape.array.sizeOf_spec]
    omega
  · exact Field.sizeOf_lt ‹_›

/-! ### The shape of a schema -/

mutual

def shapeOf : Value F → Shape F
  | .obj schema =>
    match choicesOf schema with
    | some (choice, choices) => .choice choice choices
    | none =>
      match typeOf schema with
      | some .string => .string
      | some .integer => .integer
      | some .number => .number
      | some .boolean => .boolean
      | some .null => .null
      | some .array =>
        match _ : lookup "items".toList schema with
        | some items => .array (shapeOf items)
        | none => .array .any
      | some .object => shapeOfObject schema
      | none => .any
  | _ => .any
termination_by schema => sizeOf schema
decreasing_by
  · have hless := sizeOf_lookup ‹_›
    simp only [Value.obj.sizeOf_spec]
    omega
  · simp only [Value.obj.sizeOf_spec]
    omega

def shapeOfObject (schema : List (Text × Value F)) : Shape F :=
  match _ : propertiesOf schema with
  | some properties => .object (fieldsOf (requiredNames schema) properties)
  | none => .anyObject
termination_by sizeOf schema
decreasing_by exact sizeOf_properties ‹_›

def fieldsOf (required : List Text) : List (Text × Value F) → List (Field (Shape F))
  | [] => []
  | (key, subschema) :: properties =>
    ⟨key, decide (key ∈ required), shapeOf subschema⟩ :: fieldsOf required properties
termination_by properties => sizeOf properties
decreasing_by
  · simp only [List.cons.sizeOf_spec, Prod.mk.sizeOf_spec]
    omega
  · simp only [List.cons.sizeOf_spec]
    omega

end

section

variable {schema : List (Text × Value F)}

theorem shapeOf_choice {c : Value F} {cs : List (Value F)} (h : choicesOf schema = some (c, cs)) :
    shapeOf (.obj schema) = .choice c cs := by
  rw [shapeOf, h]

/-- The types that look at nothing else. -/
def JsonType.simple : JsonType → Option (Shape F)
  | string => some .string
  | integer => some .integer
  | number => some .number
  | boolean => some .boolean
  | null => some .null
  | array => none
  | object => none

theorem shapeOf_simple {type : JsonType} {shape : Shape F} (henum : choicesOf schema = none)
    (htype : typeOf schema = some type) (hsimple : type.simple = some shape) :
    shapeOf (.obj schema) = shape := by
  rw [shapeOf, henum, htype]
  cases type with
  | string => exact Option.some.inj hsimple
  | integer => exact Option.some.inj hsimple
  | number => exact Option.some.inj hsimple
  | boolean => exact Option.some.inj hsimple
  | null => exact Option.some.inj hsimple
  | array => cases hsimple
  | object => cases hsimple

theorem shapeOf_untyped (henum : choicesOf schema = none) (htype : typeOf schema = none) :
    shapeOf (.obj schema) = .any := by
  rw [shapeOf, henum, htype]

theorem shapeOf_array_any (henum : choicesOf schema = none) (htype : typeOf schema = some .array)
    (hitems : lookup "items".toList schema = none) : shapeOf (.obj schema) = .array .any := by
  rw [shapeOf, henum, htype]
  dsimp only
  split
  · rename_i items hsome
    cases hitems.symm.trans hsome
  · rfl

theorem shapeOf_array {items : Value F} (henum : choicesOf schema = none)
    (htype : typeOf schema = some .array) (hitems : lookup "items".toList schema = some items) :
    shapeOf (.obj schema) = .array (shapeOf items) := by
  rw [shapeOf, henum, htype]
  dsimp only
  split
  · rename_i items' hitems'
    cases hitems.symm.trans hitems'
    rfl
  · rename_i hnone
    cases hitems.symm.trans hnone

theorem shapeOf_eq_shapeOfObject (henum : choicesOf schema = none)
    (htype : typeOf schema = some .object) : shapeOf (.obj schema) = shapeOfObject schema := by
  rw [shapeOf, henum, htype]

theorem shapeOfObject_any (h : propertiesOf schema = none) : shapeOfObject schema = .anyObject := by
  rw [shapeOfObject]
  split
  · rename_i properties hsome
    cases h.symm.trans hsome
  · rfl

theorem shapeOfObject_fields {properties : List (Text × Value F)}
    (h : propertiesOf schema = some properties) :
    shapeOfObject schema = .object (fieldsOf (requiredNames schema) properties) := by
  rw [shapeOfObject]
  split
  · rename_i properties' hsome
    cases h.symm.trans hsome
    rfl
  · rename_i hnone
    cases h.symm.trans hnone

theorem shapeOf_object {properties : List (Text × Value F)} (henum : choicesOf schema = none)
    (htype : typeOf schema = some .object) (hproperties : propertiesOf schema = some properties) :
    shapeOf (.obj schema) = .object (fieldsOf (requiredNames schema) properties) := by
  rw [shapeOf_eq_shapeOfObject henum htype, shapeOfObject_fields hproperties]

theorem fieldsOf_eq_map (required : List Text) (properties : List (Text × Value F)) :
    fieldsOf required properties =
      properties.map fun (key, subschema) => ⟨key, decide (key ∈ required), shapeOf subschema⟩ := by
  induction properties with
  | nil => rw [fieldsOf, List.map_nil]
  | cons property properties ih =>
    obtain ⟨key, subschema⟩ := property
    rw [fieldsOf, ih, List.map_cons]

end

/-! ### The rules of a shape -/

variable (floats : Floats F)

mutual

def Shape.emit : Shape F → SubCompiler → Body × SubCompiler
  | .any, sub => (.rule .json, sub.widen)
  | .anyObject, sub => (.rule .object, sub.widen)
  | .choice choice choices, sub =>
    (.group (alts (literal floats choice) (choices.map (literal floats))), sub)
  | .string, sub => (.rule .string, sub)
  | .integer, sub => (.rule .integer, sub)
  | .number, sub => (.rule .number, sub)
  | .boolean, sub => (.rule .boolean, sub)
  | .null, sub => (lit "null", sub)
  | .array item, sub =>
    let item := item.emit sub
    item.2.define .array (bracketed (lit "[") item.1 (lit "]"))
  | .object fields, sub =>
    let made := emitFields fields sub
    made.2.define .obj (objectBody made.1.1 made.1.2)

def emitFields : List (Field (Shape F)) → SubCompiler → (List Body × List Body) × SubCompiler
  | [], sub => (([], []), sub)
  | ⟨key, required, shape⟩ :: fields, sub =>
    let rule := shape.emit sub
    let made := emitFields fields rule.2
    if required then ((pair key rule.1 :: made.1.1, made.1.2), made.2)
    else ((made.1.1, pair key rule.1 :: made.1.2), made.2)

end

mutual

/-- **The compiler goes by shapes.** -/
theorem value_eq_emit (schema : Value F) (sub : SubCompiler) :
    value floats schema sub = (shapeOf schema).emit floats sub := by
  cases schema with
  | obj schema =>
    rw [value]
    cases henum : choicesOf schema with
    | some choices => rw [shapeOf_choice henum, Shape.emit]
    | none =>
      cases htype : typeOf schema with
      | none => rw [shapeOf_untyped henum htype, Shape.emit]
      | some type =>
        cases type with
        | string => rw [shapeOf_simple henum htype rfl, Shape.emit]
        | integer => rw [shapeOf_simple henum htype rfl, Shape.emit]
        | number => rw [shapeOf_simple henum htype rfl, Shape.emit]
        | boolean => rw [shapeOf_simple henum htype rfl, Shape.emit]
        | null => rw [shapeOf_simple henum htype rfl, Shape.emit]
        | array =>
          dsimp only
          split
          · rename_i items hitems
            have hless := sizeOf_lookup hitems
            rw [shapeOf_array henum htype hitems, value_eq_emit items sub, Shape.emit]
          · rename_i hnone
            rw [shapeOf_array_any henum htype hnone, Shape.emit, Shape.emit]
        | object =>
          rw [shapeOf_eq_shapeOfObject henum htype]
          exact object_eq_emit schema sub
  | null => rw [value, shapeOf, Shape.emit] <;> simp
  | bool => rw [value, shapeOf, Shape.emit] <;> simp
  | num => rw [value, shapeOf, Shape.emit] <;> simp
  | str => rw [value, shapeOf, Shape.emit] <;> simp
  | arr => rw [value, shapeOf, Shape.emit] <;> simp
termination_by sizeOf schema

theorem object_eq_emit (schema : List (Text × Value F)) (sub : SubCompiler) :
    object floats schema sub = (shapeOfObject schema).emit floats sub := by
  rw [object]
  split
  · rename_i properties hproperties
    have hless := sizeOf_properties hproperties
    rw [shapeOfObject_fields hproperties, parts_eq_emit (requiredNames schema) properties sub,
      Shape.emit]
  · rename_i hnone
    rw [shapeOfObject_any hnone, Shape.emit]
termination_by sizeOf schema

theorem parts_eq_emit (required : List Text) (properties : List (Text × Value F))
    (sub : SubCompiler) :
    parts floats required properties sub =
    emitFields floats (fieldsOf required properties) sub := by
  cases properties with
  | nil => rw [parts, fieldsOf, emitFields]
  | cons property properties =>
    obtain ⟨key, subschema⟩ := property
    have hvalue := value_eq_emit subschema sub
    have hparts := fun sub => parts_eq_emit required properties sub
    rw [parts, fieldsOf, emitFields, hvalue]
    simp only [hparts, decide_eq_true_eq]
termination_by sizeOf properties

end

/-! ### Fresh names -/

/-- One state of the compiler after another: rules were added at the end, each
    under a name with a number of its own. -/
structure Extends (sub sub' : SubCompiler) : Prop where
  index : sub'.index = sub.index
  counter : sub.counter ≤ sub'.counter
  rules : ∃ new, sub'.rules = sub.rules ++ new ∧ (new.map Rule.name).Nodup ∧
    ∀ rule ∈ new, ∃ kind counter, rule.name = .fresh sub.index kind counter ∧
      sub.counter < counter ∧ counter ≤ sub'.counter

theorem Extends.rfl' (sub : SubCompiler) : Extends sub sub :=
  ⟨rfl, le_rfl, [], by simp⟩

theorem Extends.widen {sub sub' : SubCompiler} (h : Extends sub sub') : Extends sub sub'.widen :=
  ⟨h.index, h.counter, h.rules⟩

/-- What is added after has higher numbers than what was added before. -/
theorem Extends.trans {sub sub' sub'' : SubCompiler} (h : Extends sub sub')
    (h' : Extends sub' sub'') : Extends sub sub'' := by
  obtain ⟨new, hnew, hnodup, hnames⟩ := h.rules
  obtain ⟨new', hnew', hnodup', hnames'⟩ := h'.rules
  refine ⟨h'.index.trans h.index, h.counter.trans h'.counter, new ++ new', ?_, ?_, ?_⟩
  · rw [hnew', hnew, List.append_assoc]
  · rw [List.map_append]
    refine hnodup.append hnodup' ?_
    intro name hname hname'
    obtain ⟨rule, hrule, rfl⟩ := List.mem_map.mp hname
    obtain ⟨rule', hrule', hsame⟩ := List.mem_map.mp hname'
    obtain ⟨kind, counter, hfresh, -, hle⟩ := hnames rule hrule
    obtain ⟨kind', counter', hfresh', hless, -⟩ := hnames' rule' hrule'
    rw [hfresh, hfresh', RuleName.fresh.injEq] at hsame
    omega
  · intro rule hrule
    rcases List.mem_append.mp hrule with hrule | hrule
    · obtain ⟨kind, counter, hfresh, hless, hle⟩ := hnames rule hrule
      exact ⟨kind, counter, hfresh, hless, hle.trans h'.counter⟩
    · obtain ⟨kind, counter, hfresh, hless, hle⟩ := hnames' rule hrule
      exact ⟨kind, counter, by rw [hfresh, h.index], h.counter.trans_lt hless, hle⟩

theorem extends_define (sub : SubCompiler) (kind : Kind) (body : Body) :
    Extends sub (sub.define kind body).2 := by
  refine ⟨rfl, Nat.le_succ _, [⟨.fresh sub.index kind (sub.counter + 1), body⟩], rfl, ?_, ?_⟩
  · exact List.nodup_singleton _
  · intro rule hrule
    cases List.mem_singleton.mp hrule
    exact ⟨kind, _, rfl, Nat.lt_succ_self _, le_rfl⟩

theorem Extends.subset {sub sub' : SubCompiler} (h : Extends sub sub') {rule : Rule}
    (hrule : rule ∈ sub.rules) : rule ∈ sub'.rules := by
  obtain ⟨new, hnew, -⟩ := h.rules
  rw [hnew]
  exact List.mem_append_left _ hrule

theorem emitFields_extends {fields : List (Field (Shape F))}
    (h : ∀ field ∈ fields, ∀ sub, Extends sub (field.value.emit floats sub).2) (sub : SubCompiler) :
    Extends sub (emitFields floats fields sub).2 := by
  induction fields generalizing sub with
  | nil =>
    rw [emitFields]
    exact .rfl' sub
  | cons field fields ih =>
    obtain ⟨key, required, shape⟩ := field
    rw [List.forall_mem_cons] at h
    have hboth := (h.1 sub).trans (ih h.2 (shape.emit floats sub).2)
    rw [emitFields]
    split
    · exact hboth
    · exact hboth

theorem emit_extends (shape : Shape F) (sub : SubCompiler) :
    Extends sub (shape.emit floats sub).2 := by
  induction shape generalizing sub with
  | any =>
    rw [Shape.emit]
    exact (Extends.rfl' sub).widen
  | anyObject =>
    rw [Shape.emit]
    exact (Extends.rfl' sub).widen
  | choice c cs =>
    rw [Shape.emit]
    exact .rfl' sub
  | string =>
    rw [Shape.emit]
    exact .rfl' sub
  | integer =>
    rw [Shape.emit]
    exact .rfl' sub
  | number =>
    rw [Shape.emit]
    exact .rfl' sub
  | boolean =>
    rw [Shape.emit]
    exact .rfl' sub
  | null =>
    rw [Shape.emit]
    exact .rfl' sub
  | array item ih =>
    rw [Shape.emit]
    exact (ih sub).trans (extends_define _ _ _)
  | object fields ih =>
    rw [Shape.emit]
    exact (emitFields_extends floats ih sub).trans (extends_define _ _ _)

/-! ### Widening -/

mutual

/-- Some part of the shape is any JSON. -/
def Shape.wide : Shape F → Bool
  | .any => true
  | .anyObject => true
  | .choice _ _ => false
  | .string => false
  | .integer => false
  | .number => false
  | .boolean => false
  | .null => false
  | .array item => item.wide
  | .object fields => wideFields fields

def wideFields : List (Field (Shape F)) → Bool
  | [] => false
  | ⟨_, _, shape⟩ :: fields => shape.wide || wideFields fields

end

theorem wideFields_eq_any (fields : List (Field (Shape F))) :
    wideFields fields = fields.any fun field => field.value.wide := by
  induction fields with
  | nil => rfl
  | cons field fields ih => rw [wideFields, ih, List.any_cons]

theorem emitFields_widened {fields : List (Field (Shape F))}
    (h : ∀ field ∈ fields, ∀ sub,
      (field.value.emit floats sub).2.widened = (sub.widened || field.value.wide))
    (sub : SubCompiler) :
    (emitFields floats fields sub).2.widened = (sub.widened || wideFields fields) := by
  induction fields generalizing sub with
  | nil => rw [emitFields, wideFields, Bool.or_false]
  | cons field fields ih =>
    obtain ⟨key, required, shape⟩ := field
    rw [List.forall_mem_cons] at h
    have hrest := ih h.2 (shape.emit floats sub).2
    rw [h.1 sub, Bool.or_assoc] at hrest
    rw [emitFields, wideFields]
    split
    · exact hrest
    · exact hrest

/-- The flag is raised exactly when a part is widened. -/
theorem emit_widened (shape : Shape F) (sub : SubCompiler) :
    (shape.emit floats sub).2.widened = (sub.widened || shape.wide) := by
  induction shape generalizing sub with
  | any => simp [Shape.emit, Shape.wide, SubCompiler.widen]
  | anyObject => simp [Shape.emit, Shape.wide, SubCompiler.widen]
  | choice c cs => simp [Shape.emit, Shape.wide]
  | string => simp [Shape.emit, Shape.wide]
  | integer => simp [Shape.emit, Shape.wide]
  | number => simp [Shape.emit, Shape.wide]
  | boolean => simp [Shape.emit, Shape.wide]
  | null => simp [Shape.emit, Shape.wide]
  | array item ih =>
    rw [Shape.emit, Shape.wide]
    exact ih sub
  | object fields ih =>
    rw [Shape.emit, Shape.wide]
    exact emitFields_widened floats ih sub

end AiDaemon.Grammar
