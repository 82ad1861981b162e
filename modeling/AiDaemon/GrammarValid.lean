import AiDaemon.GrammarValues
import AiDaemon.JsonSchema

/-!
# Does the flag tell the truth?

`widened` is there so that a schema that is not enforced is never silently
swallowed.  While the flag is down, the arguments the grammar admits are the
values of the shape of the schema, and these validate exactly when the schema
asks for nothing else: no other keyword that such a value can break, no required
name that is not declared, no `enum` that is empty or that its own schema
refuses (`Enforced`).
-/

namespace AiDaemon.Grammar

open Json Gbnf Proto JsonSchema

variable {F : Type} {floats : Floats F} {keywords : Keywords F}

/-! ### Lists member by member -/

section

variable {α β : Type} {R : α → β → Prop} {as : List α} {bs : List β}

theorem exists_right (h : List.Forall₂ R as bs) {a : α} (ha : a ∈ as) : ∃ b ∈ bs, R a b := by
  induction h with
  | nil => cases ha
  | @cons a' b' _ _ hfirst _ ih =>
    rcases List.mem_cons.mp ha with rfl | ha
    · exact ⟨b', List.mem_cons_self, hfirst⟩
    · obtain ⟨b, hb, hab⟩ := ih ha
      exact ⟨b, List.mem_cons_of_mem _ hb, hab⟩

theorem exists_left (h : List.Forall₂ R as bs) {b : β} (hb : b ∈ bs) : ∃ a ∈ as, R a b :=
  exists_right h.flip hb

theorem exists_forall₂ (h : ∀ a ∈ as, ∃ b, R a b) : ∃ bs, List.Forall₂ R as bs := by
  induction as with
  | nil => exact ⟨[], .nil⟩
  | cons a as ih =>
    rw [List.forall_mem_cons] at h
    obtain ⟨b, hb⟩ := h.1
    obtain ⟨bs, hbs⟩ := ih h.2
    exact ⟨b :: bs, .cons hb hbs⟩

end

/-! ### Schemas that ask for no more -/

/-- No empty `enum`, and no other keyword that a value of the shape breaks. -/
structure Quiet (floats : Floats F) (keywords : Keywords F) (schema : List (Text × Value F)) :
    Prop where
  noEnum : lookup "enum".toList schema ≠ some (.arr [])
  others : ∀ v, (shapeOf (.obj schema)).Admits floats v → OthersHold keywords schema v

/-- The schema asks for no more than its shape says, here and below. -/
inductive Enforced (floats : Floats F) (keywords : Keywords F) : Value F → Prop where
  | choice {schema : List (Text × Value F)} {c : Value F} {cs : List (Value F)} :
      choicesOf schema = some (c, cs) → (∀ v ∈ c :: cs, Valid keywords (.obj schema) v.normal) →
      Enforced floats keywords (.obj schema)
  | simple {schema : List (Text × Value F)} {type : JsonType} {shape : Shape F} :
      choicesOf schema = none → Quiet floats keywords schema → typeOf schema = some type →
      type.simple = some shape → Enforced floats keywords (.obj schema)
  | array {schema : List (Text × Value F)} {items : Value F} :
      choicesOf schema = none → Quiet floats keywords schema → typeOf schema = some .array →
      lookup "items".toList schema = some items → Enforced floats keywords items →
      Enforced floats keywords (.obj schema)
  | object {schema properties : List (Text × Value F)} :
      choicesOf schema = none → Quiet floats keywords schema → typeOf schema = some .object →
      propertiesOf schema = some properties →
      (∀ name ∈ requiredNames schema, name ∈ properties.map Prod.fst) →
      (∀ property ∈ properties, Bare property.1) →
      (∀ property ∈ properties, Enforced floats keywords property.2) →
      Enforced floats keywords (.obj schema)

/-- The literal of an integer is read as a whole number. -/
def WholeIntegers (floats : Floats F) (keywords : Keywords F) : Prop :=
  ∀ literal f, Integer literal → readNumber floats literal = some (.float f) → keywords.whole f

section

variable {schema : List (Text × Value F)}

theorem enum_absent (henum : choicesOf schema = none) (hquiet : Quiet floats keywords schema)
    (choices : List (Value F)) : lookup "enum".toList schema ≠ some (.arr choices) := by
  intro h
  cases choices with
  | nil => exact hquiet.noEnum h
  | cons c cs =>
    rw [choicesOf_eq_some.mpr h] at henum
    cases henum

theorem typeOf_eq_some {type : JsonType} (h : typeOf schema = some type) :
    ∃ name, lookup "type".toList schema = some (.str name) ∧ JsonType.ofName name = some type := by
  rw [typeOf, Option.bind_eq_some_iff] at h
  obtain ⟨name, hname, htype⟩ := h
  rw [Option.bind_eq_some_iff] at hname
  obtain ⟨v, hv, hstr⟩ := hname
  cases v with
  | str s =>
    cases hstr
    exact ⟨name, hv, htype⟩
  | null => cases hstr
  | bool => cases hstr
  | num => cases hstr
  | arr => cases hstr
  | obj => cases hstr

/-- Validation of a value of the declared type: what is left is what its members
    or items are asked. -/
theorem valid_of_type {type : JsonType} {v : Value F} (henum : choicesOf schema = none)
    (hquiet : Quiet floats keywords schema) (htype : typeOf schema = some type)
    (hv : OfType keywords type v) (hadmits : (shapeOf (.obj schema)).Admits floats v)
    (hrequired : ∀ names members name, lookup "required".toList schema = some (.arr names) →
      v = .obj members → .str name ∈ names → (lookup name members).isSome)
    (hproperties : ∀ properties members key subschema w,
      lookup "properties".toList schema = some (.obj properties) → v = .obj members →
      lookup key properties = some subschema → lookup key members = some w →
      Valid keywords subschema w)
    (hitems : ∀ items vs w, lookup "items".toList schema = some items → v = .arr vs → w ∈ vs →
      Valid keywords items w) : Valid keywords (.obj schema) v := by
  obtain ⟨name, hname, hnamed⟩ := typeOf_eq_some htype
  refine .object ?_ ?_ hrequired hproperties hitems (hquiet.others v hadmits)
  · intro argument hargument
    cases hname.symm.trans hargument
    exact ⟨type, hnamed, hv⟩
  · intro choices hchoices
    exact absurd hchoices (enum_absent henum hquiet choices)

/-- A value of a type without parts. -/
theorem simple_ofType (hwhole : WholeIntegers floats keywords) {type : JsonType} {shape : Shape F}
    (hsimple : type.simple = some shape) {v : Value F} (h : shape.Admits floats v) :
    OfType keywords type v ∧ (∀ members, v ≠ .obj members) ∧ ∀ vs, v ≠ .arr vs := by
  cases type with
  | string =>
    cases hsimple
    rw [Shape.Admits] at h
    obtain ⟨s, rfl⟩ := h
    exact ⟨⟨s, rfl⟩, by simp, by simp⟩
  | integer =>
    cases hsimple
    rw [Shape.Admits] at h
    obtain ⟨literal, n, hliteral, hread, rfl⟩ := h
    refine ⟨⟨n, rfl, ?_⟩, by simp, by simp⟩
    rintro f rfl
    exact hwhole literal f hliteral hread
  | number =>
    cases hsimple
    rw [Shape.Admits] at h
    obtain ⟨literal, n, -, -, rfl⟩ := h
    exact ⟨⟨n, rfl⟩, by simp, by simp⟩
  | boolean =>
    cases hsimple
    rw [Shape.Admits] at h
    obtain ⟨b, rfl⟩ := h
    exact ⟨⟨b, rfl⟩, by simp, by simp⟩
  | null =>
    cases hsimple
    rw [Shape.Admits] at h
    subst h
    exact ⟨rfl, by simp, by simp⟩
  | array => cases hsimple
  | object => cases hsimple

/-- The field of a declared property. -/
def fieldOf (schema : List (Text × Value F)) (property : Text × Value F) : Field (Shape F) :=
  ⟨property.1, decide (property.1 ∈ requiredNames schema), shapeOf property.2⟩

theorem fieldsOf_eq_fieldOf (properties : List (Text × Value F)) :
    fieldsOf (requiredNames schema) properties = properties.map (fieldOf schema) :=
  fieldsOf_eq_map _ _

theorem mem_requiredNames {names : List (Value F)} {name : Text}
    (h : lookup "required".toList schema = some (.arr names)) (hname : .str name ∈ names) :
    name ∈ requiredNames schema := by
  rw [requiredNames, h]
  exact List.mem_filterMap.mpr ⟨_, hname, rfl⟩

/-- Every required field is filled. -/
theorem lookup_required {fields chosen : List (Field (Shape F))} {members : List (Text × Value F)}
    (hchosen : Selection fields chosen) (hfills : List.Forall₂ (Field.Admits floats) chosen members)
    {field : Field (Shape F)} (hfield : field ∈ fields) (hrequired : field.required = true) :
    (lookup field.key (collectMembers members)).isSome := by
  obtain ⟨kept, -, rfl⟩ := hchosen
  have hmem : field ∈ required fields ++ kept :=
    List.mem_append_left _ (List.mem_filter.mpr ⟨hfield, hrequired⟩)
  obtain ⟨member, hmember, hkey, -⟩ := exists_right hfills hmem
  rw [lookup_collectMembers, ← hkey]
  exact lookup_isSome (List.mem_reverse.mpr hmember)

/-- Every member fills a field of its name. -/
theorem exists_field {fields chosen : List (Field (Shape F))} {members : List (Text × Value F)}
    (hchosen : Selection fields chosen) (hfills : List.Forall₂ (Field.Admits floats) chosen members)
    {key : Text} {w : Value F} (h : lookup key (collectMembers members) = some w) :
    ∃ field ∈ fields, field.key = key ∧ field.value.Admits floats w := by
  rw [lookup_collectMembers] at h
  obtain ⟨field, hfield, hkey, hadmits⟩ :=
    exists_left hfills (List.mem_reverse.mp (mem_of_lookup h))
  exact ⟨field, hchosen.subset hfield, hkey.symm, hadmits⟩

/-- An object with the members its schema declares and requires. -/
theorem valid_object (henum : choicesOf schema = none) (hquiet : Quiet floats keywords schema)
    (htype : typeOf schema = some .object) {properties : List (Text × Value F)}
    (hproperties : propertiesOf schema = some properties) (hfiled : (Value.obj properties).Filed)
    (hdeclared : ∀ name ∈ requiredNames schema, name ∈ properties.map Prod.fst)
    (hvalues : ∀ property ∈ properties, ∀ w, (shapeOf property.2).Admits floats w →
      Valid keywords property.2 w)
    {v : Value F} (hadmits : (shapeOf (.obj schema)).Admits floats v) :
    Valid keywords (.obj schema) v := by
  have hobject := hadmits
  rw [shapeOf_object henum htype hproperties, fieldsOf_eq_fieldOf, admits_object] at hobject
  obtain ⟨chosen, members, hchosen, hfills, rfl⟩ := hobject
  refine valid_of_type henum hquiet htype ⟨_, rfl⟩ hadmits ?_ ?_ ?_
  · intro names _ name hnames heq hname
    cases heq
    have hrequired := mem_requiredNames hnames hname
    obtain ⟨property, hproperty, rfl⟩ := List.mem_map.mp (hdeclared name hrequired)
    exact lookup_required hchosen hfills (List.mem_map_of_mem hproperty)
      (decide_eq_true hrequired)
  · intro properties' _ key subschema w hproperties' heq hsub hw
    cases heq
    obtain rfl : properties = properties' := by
      rw [propertiesOf_eq_some.mpr hproperties'] at hproperties
      exact (Option.some.inj hproperties).symm
    obtain ⟨field, hfield, rfl, hvalue⟩ := exists_field hchosen hfills hw
    obtain ⟨property, hproperty, rfl⟩ := List.mem_map.mp hfield
    -- the name is declared once, so this is the schema of the field
    have hsame := (lookup_of_mem hfiled hproperty).symm.trans hsub
    cases hsame
    exact hvalues property hproperty w hvalue
  · intro items vs w _ heq
    cases heq

/-- **A schema that asks for no more** holds of every value of its shape. -/
theorem valid_of_enforced (hwhole : WholeIntegers floats keywords) {schema : Value F}
    (h : Enforced floats keywords schema) (hfiled : schema.Filed) {v : Value F}
    (hadmits : (shapeOf schema).Admits floats v) : Valid keywords schema v := by
  induction h generalizing v with
  | choice henum hvalid =>
    rw [shapeOf_choice henum, Shape.Admits] at hadmits
    obtain ⟨w, hw, rfl⟩ := hadmits
    exact hvalid w hw
  | simple henum hquiet htype hsimple =>
    have hshape := hadmits
    rw [shapeOf_simple henum htype hsimple] at hshape
    obtain ⟨hv, hobj, harr⟩ := simple_ofType hwhole hsimple hshape
    refine valid_of_type henum hquiet htype hv hadmits ?_ ?_ ?_
    · intro names members name _ heq
      exact absurd heq (hobj members)
    · intro properties members key subschema w _ heq
      exact absurd heq (hobj members)
    · intro items vs w _ heq
      exact absurd heq (harr vs)
  | @array schema items henum hquiet htype hitems _ ih =>
    have hshape := hadmits
    rw [shapeOf_array henum htype hitems, Shape.Admits] at hshape
    obtain ⟨vs, rfl, hvs⟩ := hshape
    refine valid_of_type henum hquiet htype ⟨vs, rfl⟩ hadmits ?_ ?_ ?_
    · intro names members name _ heq
      cases heq
    · intro properties members key subschema w _ heq
      cases heq
    · intro items' vs' w hitems' heq hw
      cases heq
      cases hitems.symm.trans hitems'
      exact ih (lookup_filed hfiled hitems) (hvs w hw)
  | @object schema properties henum hquiet htype hproperties hdeclared _ _ ih =>
    have hprops : (Value.obj properties).Filed :=
      lookup_filed hfiled (propertiesOf_eq_some.mp hproperties)
    refine valid_object henum hquiet htype hproperties hprops hdeclared ?_ hadmits
    intro property hproperty w hw
    exact ih property hproperty (filedMembers_iff.mp hprops.2 property hproperty) hw

/-! ### Nothing less will do -/

theorem exists_integer (floats : Floats F) :
    ∃ literal n, Integer literal ∧ readNumber floats literal = some n := by
  have hinteger (n : Nat) : Integer (Text.ofNat n) := ⟨[], _, Or.inl rfl, isWhole_ofNat n, rfl⟩
  exact ⟨_, _, hinteger _, readNumber_ofNat 0⟩

/-- Every shape that is not wide has a value. -/
theorem exists_admitted (floats : Floats F) {shape : Shape F} (hwide : shape.wide = false) :
    ∃ v, shape.Admits floats v := by
  induction shape with
  | any => cases hwide
  | anyObject => cases hwide
  | choice c cs => exact ⟨c.normal, by rw [Shape.Admits]; exact ⟨c, List.mem_cons_self, rfl⟩⟩
  | string => exact ⟨.str [], by rw [Shape.Admits]; exact ⟨[], rfl⟩⟩
  | integer =>
    obtain ⟨literal, n, hliteral, hread⟩ := exists_integer floats
    exact ⟨.num n, by rw [Shape.Admits]; exact ⟨literal, n, hliteral, hread, rfl⟩⟩
  | number =>
    obtain ⟨literal, n, hliteral, hread⟩ := exists_integer floats
    refine ⟨.num n, ?_⟩
    rw [Shape.Admits]
    exact ⟨literal, n, numeral_of_integer hliteral, hread, rfl⟩
  | boolean => exact ⟨.bool true, by rw [Shape.Admits]; exact ⟨true, rfl⟩⟩
  | null => exact ⟨.null, by rw [Shape.Admits]⟩
  | array item ih => exact ⟨.arr [], by rw [Shape.Admits]; exact ⟨[], rfl, by simp⟩⟩
  | object fields ih =>
    have hfilled : ∀ f ∈ required fields, ∃ member, f.Admits floats member := by
      intro f hf
      have hmem := List.mem_of_mem_filter hf
      obtain ⟨v, hv⟩ := ih f hmem (wide_of_mem hwide hmem)
      exact ⟨(f.key, v), rfl, hv⟩
    obtain ⟨members, hmembers⟩ := exists_forall₂ hfilled
    exact ⟨_, (admits_object floats).mpr ⟨_, members, selection_required fields, hmembers, rfl⟩⟩

/-- A schema whose shape is not wide is one of the four that are enforced. -/
theorem shape_cases {schema : Value F} (h : (shapeOf schema).wide = false) :
    ∃ members, schema = .obj members ∧
      ((∃ c cs, choicesOf members = some (c, cs)) ∨
        choicesOf members = none ∧ ∃ type, typeOf members = some type ∧
          ((∃ shape : Shape F, type.simple = some shape) ∨
            (type = .array ∧ ∃ items, lookup "items".toList members = some items) ∨
            (type = .object ∧ ∃ properties, propertiesOf members = some properties))) := by
  cases schema with
  | null => rw [shapeOf] at h <;> simp [Shape.wide] at h ⊢
  | bool => rw [shapeOf] at h <;> simp [Shape.wide] at h ⊢
  | num => rw [shapeOf] at h <;> simp [Shape.wide] at h ⊢
  | str => rw [shapeOf] at h <;> simp [Shape.wide] at h ⊢
  | arr => rw [shapeOf] at h <;> simp [Shape.wide] at h ⊢
  | obj members =>
    refine ⟨members, rfl, ?_⟩
    cases henum : choicesOf members with
    | some choices => exact Or.inl ⟨choices.1, choices.2, rfl⟩
    | none =>
      refine Or.inr ⟨rfl, ?_⟩
      rw [shapeOf, henum] at h
      cases htype : typeOf members with
      | none =>
        rw [htype] at h
        cases h
      | some type =>
        refine ⟨type, rfl, ?_⟩
        cases type with
        | string => exact Or.inl ⟨_, rfl⟩
        | integer => exact Or.inl ⟨_, rfl⟩
        | number => exact Or.inl ⟨_, rfl⟩
        | boolean => exact Or.inl ⟨_, rfl⟩
        | null => exact Or.inl ⟨_, rfl⟩
        | array =>
          rw [htype] at h
          dsimp only at h
          split at h
          · rename_i items hitems
            exact Or.inr (Or.inl ⟨rfl, items, hitems⟩)
          · cases h
        | object =>
          rw [htype] at h
          dsimp only at h
          rw [shapeOfObject] at h
          split at h
          · rename_i properties hproperties
            exact Or.inr (Or.inr ⟨rfl, properties, hproperties⟩)
          · cases h

/-- A schema that holds of all values of its shape is quiet. -/
theorem quiet_of_valid (hwide : (shapeOf (.obj schema)).wide = false)
    (h : ∀ v, (shapeOf (.obj schema)).Admits floats v → Valid keywords (.obj schema) v) :
    Quiet floats keywords schema := by
  constructor
  · intro henum
    obtain ⟨v, hv⟩ := exists_admitted floats hwide
    cases h v hv with
    | object _ hchoices _ _ _ _ =>
      obtain ⟨c, hc, -⟩ := hchoices [] henum
      cases hc
  · intro v hv
    cases h v hv with
    | object _ _ _ _ _ hothers => exact hothers

/-- A value of one field is a member of an object of the shape. -/
theorem exists_object {fields : List (Field (Shape F))} (hwide : (Shape.object fields).wide = false)
    (hkeys : (fields.map Field.key).Nodup) {field : Field (Shape F)} (hfield : field ∈ fields)
    {w : Value F} (hw : field.value.Admits floats w) :
    ∃ members, (Shape.object fields).Admits floats (.obj members) ∧
      lookup field.key members = some w := by
  obtain ⟨chosen, hchosen, hmem⟩ := exists_selection hfield
  -- this field gets the value, the others any
  have hfilled : ∀ f ∈ chosen, ∃ member : Text × Value F,
      f.Admits floats member ∧ (f.key = field.key → member.2 = w) := by
    intro f hf
    have hf' := hchosen.subset hf
    by_cases hkey : f.key = field.key
    · obtain rfl := List.inj_on_of_nodup_map hkeys hf' hfield hkey
      exact ⟨(f.key, w), ⟨rfl, hw⟩, fun _ => rfl⟩
    · obtain ⟨v, hv⟩ := exists_admitted floats (wide_of_mem hwide hf')
      exact ⟨(f.key, v), ⟨rfl, hv⟩, fun h => absurd h hkey⟩
  obtain ⟨members, hmembers⟩ := exists_forall₂ hfilled
  refine ⟨collectMembers members, (admits_object floats).mpr
    ⟨chosen, members, hchosen, hmembers.imp fun _ _ h => h.1, rfl⟩, ?_⟩
  rw [lookup_collectMembers]
  obtain ⟨⟨key, v⟩, hmember, ⟨rfl, -⟩, hv⟩ := exists_right hmembers hmem
  obtain rfl : v = w := hv rfl
  refine lookup_eq_of_forall (List.mem_reverse.mpr hmember) fun u hu => ?_
  obtain ⟨f, -, ⟨hkey, -⟩, hu'⟩ := exists_left hmembers (List.mem_reverse.mp hu)
  exact hu' hkey.symm

theorem required_declared {properties : List (Text × Value F)}
    (hshape : shapeOf (.obj schema) = .object (properties.map (fieldOf schema)))
    (hwide : (shapeOf (.obj schema)).wide = false)
    (h : ∀ v, (shapeOf (.obj schema)).Admits floats v → Valid keywords (.obj schema) v)
    {name : Text} (hname : name ∈ requiredNames schema) : name ∈ properties.map Prod.fst := by
  obtain ⟨v, hv⟩ := exists_admitted floats hwide
  have hobject := hv
  rw [hshape, admits_object] at hobject
  obtain ⟨chosen, members, hchosen, hfills, rfl⟩ := hobject
  rw [requiredNames] at hname
  split at hname
  · rename_i names hnames
    obtain ⟨named, hnamed, hstr⟩ := List.mem_filterMap.mp hname
    obtain rfl : named = .str name := by
      cases named <;> simp_all [Value.asStr]
    cases h _ hv with
    | object _ _ hrequired _ _ _ =>
      have hsome := hrequired names _ name hnames rfl hnamed
      obtain ⟨w, hw⟩ := Option.isSome_iff_exists.mp hsome
      obtain ⟨field, hfield, rfl, -⟩ := exists_field hchosen hfills hw
      obtain ⟨property, hproperty, rfl⟩ := List.mem_map.mp hfield
      exact List.mem_map_of_mem hproperty
  · cases hname

end

/-- **Nothing less will do**: a schema that holds of every value of its shape
    asks for no more. -/
theorem enforced_of_valid {schema : Value F} (hwide : (shapeOf schema).wide = false)
    (hnames : ∀ name ∈ (shapeOf schema).names, Bare name) (hfiled : schema.Filed)
    (h : ∀ v, (shapeOf schema).Admits floats v → Valid keywords schema v) :
    Enforced floats keywords schema := by
  induction hsize : sizeOf schema using Nat.strong_induction_on generalizing schema with
  | _ size ih =>
  obtain ⟨members, rfl, ⟨c, cs, henum⟩ | ⟨henum, type, htype, hparts⟩⟩ := shape_cases hwide
  · refine .choice henum fun v hv => h _ ?_
    rw [shapeOf_choice henum, Shape.Admits]
    exact ⟨v, hv, rfl⟩
  have hquiet := quiet_of_valid hwide h
  rcases hparts with ⟨shape, hsimple⟩ | ⟨rfl, items, hitems⟩ | ⟨rfl, properties, hproperties⟩
  · exact .simple henum hquiet htype hsimple
  · have hshape := shapeOf_array henum htype hitems
    have hless : sizeOf items < size := by
      have hlookup := sizeOf_lookup hitems
      simp only [Value.obj.sizeOf_spec] at hsize
      omega
    rw [hshape, Shape.wide] at hwide
    rw [hshape, Shape.names] at hnames
    refine .array henum hquiet htype hitems
      (ih _ hless hwide hnames (lookup_filed hfiled hitems) (fun w hw => ?_) rfl)
    -- the array of this one item
    have harray : (shapeOf (.obj members)).Admits floats (.arr [w]) := by
      rw [hshape, Shape.Admits]
      exact ⟨[w], rfl, by simpa using hw⟩
    cases h _ harray with
    | object _ _ _ _ hall _ => exact hall items [w] w hitems rfl (List.mem_singleton_self w)
  · have hshape := shapeOf_object henum htype hproperties
    rw [fieldsOf_eq_fieldOf] at hshape
    have hprops : (Value.obj properties).Filed :=
      lookup_filed hfiled (propertiesOf_eq_some.mp hproperties)
    have hdeclared : ∀ name ∈ requiredNames members, name ∈ properties.map Prod.fst :=
      fun name hname => required_declared hshape hwide h hname
    rw [hshape] at hwide hnames
    rw [Shape.names] at hnames
    refine .object henum hquiet htype hproperties hdeclared ?_ ?_
    · intro property hproperty
      exact hnames _ (mem_fieldNames (List.mem_map_of_mem hproperty)).1
    · intro property hproperty
      have hfield : fieldOf members property ∈ properties.map (fieldOf members) :=
        List.mem_map_of_mem hproperty
      have hless : sizeOf property.2 < size := by
        have hlookup := sizeOf_lookup (lookup_of_mem hprops hproperty)
        have hparts := sizeOf_properties hproperties
        simp only [Value.obj.sizeOf_spec] at hsize
        omega
      refine ih _ hless (wide_of_mem hwide hfield)
        (fun name hname => hnames name ((mem_fieldNames hfield).2 name hname))
        (filedMembers_iff.mp hprops.2 property hproperty) (fun w hw => ?_) rfl
      have hkeys : ((properties.map (fieldOf members)).map Field.key).Nodup := by
        rw [List.map_map]
        exact nodup_keys hprops
      obtain ⟨made, hmade, hw'⟩ := exists_object hwide hkeys hfield hw
      rw [← hshape] at hmade
      cases h _ hmade with
      | object _ _ _ hall _ _ =>
        exact hall properties made property.1 property.2 w (propertiesOf_eq_some.mp hproperties) rfl
          (lookup_of_mem hprops hproperty) hw'

theorem bare_of_enforced {schema : Value F} (h : Enforced floats keywords schema) {name : Text}
    (hname : name ∈ (shapeOf schema).names) : Bare name := by
  induction h with
  | choice henum _ =>
    rw [shapeOf_choice henum, Shape.names] at hname
    cases hname
  | @simple _ type shape henum _ htype hsimple =>
    rw [shapeOf_simple henum htype hsimple] at hname
    have hnone : shape.names = [] := by
      cases type <;> cases hsimple <;> rw [Shape.names]
    rw [hnone] at hname
    cases hname
  | array henum _ htype hitems _ ih =>
    rw [shapeOf_array henum htype hitems, Shape.names] at hname
    exact ih hname
  | object henum _ htype hproperties _ hbare _ ih =>
    rw [shapeOf_object henum htype hproperties, fieldsOf_eq_fieldOf, Shape.names] at hname
    obtain ⟨field, hfield, hname⟩ := mem_fieldNames_iff.mp hname
    obtain ⟨property, hproperty, rfl⟩ := List.mem_map.mp hfield
    rcases hname with rfl | hname
    · exact hbare property hproperty
    · exact ih property hproperty hname

/-! ### The flag -/

/-- The text is a JSON text for this value, however deep it nests. -/
def Means (floats : Floats F) (text : Text) (v : Value F) : Prop :=
  ∃ depth rest, Gives floats depth text (v, rest) ∧ skipWs rest = []

/-- All arguments of the grammar validate.  What a keyword such as `$ref` asks
    depends on the document it stands in. -/
def Truthful (floats : Floats F) (keywords : Value F → Keywords F)
    (tools : List (ToolSchema (Schema F))) (compiled : Compiled) : Prop :=
  ∀ i tool, tools[i]? = some tool → ∀ text, Derives compiled.grammar (.rule (.args i)) text →
    ∀ v, Means floats text v → Valid (keywords tool.jsonSchema.value) tool.jsonSchema.value v

/-- A schema of core keywords is quiet. -/
theorem quiet_of_core {schema : List (Text × Value F)}
    (hcore : ∀ member ∈ schema, member.1 ∈ coreKeywords)
    (henum : lookup "enum".toList schema ≠ some (.arr [])) : Quiet floats keywords schema := by
  refine ⟨henum, fun v _ key argument hmem hkey => ?_⟩
  exact absurd (hcore _ hmem) hkey

/-- A schema with an `enum` and nothing else. -/
theorem enforced_enum (c : Value F) (cs : List (Value F)) :
    Enforced floats keywords (.obj [("enum".toList, .arr (c :: cs))]) := by
  refine .choice rfl fun v hv => .object ?_ ?_ ?_ ?_ ?_ ?_
  · intro type htype
    cases htype
  · intro choices hchoices
    cases hchoices
    exact ⟨v, hv, rfl⟩
  · intro names members name hnames
    cases hnames
  · intro properties members key subschema w hproperties
    cases hproperties
  · intro items vs w hitems
    cases hitems
  · intro key argument hmem hkey
    cases List.mem_singleton.mp hmem
    exact absurd (by simp [coreKeywords]) hkey

/-- Other keywords that never hold: none is in the schemas below. -/
def noKeywords : Keywords Empty := ⟨fun _ _ _ _ => False, Empty.elim⟩

theorem unitsTool_enforced : Enforced noDoubles noKeywords unitsTool.jsonSchema.value := by
  have hquiet : Quiet noDoubles noKeywords (oneProperty "units".toList
      (.obj [("enum".toList, .arr [.str ['c'], .str ['f']])])) := by
    refine quiet_of_core ?_ ?_
    · simp [oneProperty, coreKeywords]
    · intro h
      cases h
  refine .object rfl hquiet rfl rfl ?_ ?_ ?_
  · intro name hname
    exact hname
  · intro property hproperty
    cases List.mem_singleton.mp hproperty
    have hplain : "units".toList.all isPlainChar = true := by decide
    intro c hc
    have hreadable := isPlainChar_readable (List.all_eq_true.mp hplain c hc)
    exact ⟨hreadable.1, hreadable.2.1⟩
  · intro property hproperty
    cases List.mem_singleton.mp hproperty
    exact enforced_enum _ _

/-- An object that requires a name it does not declare. -/
def undeclared : List (Text × Value Empty) :=
  [ ("properties".toList, .obj []), ("required".toList, .arr [.str "path".toList]),
    ("type".toList, .str "object".toList) ]

theorem undeclared_filed : (Value.obj undeclared).Filed := by
  have hsorted : ["properties".toList, "required".toList, "type".toList].Pairwise (· < ·) :=
    by decide
  exact ⟨hsorted, by simp [undeclared, FiledMembers, Value.Filed, FiledItems]⟩

def openTool : ToolSchema (Schema Empty) where
  name := "open".toList
  description := []
  jsonSchema := ⟨.obj undeclared, undeclared_filed⟩

theorem shapeOf_openTool : shapeOf openTool.jsonSchema.value = .object [] := by
  have henum : choicesOf undeclared = none := rfl
  have htype : typeOf undeclared = some .object := rfl
  have hproperties : propertiesOf undeclared = some [] := rfl
  have hshape := shapeOf_object henum htype hproperties
  rw [fieldsOf] at hshape
  exact hshape

end AiDaemon.Grammar
