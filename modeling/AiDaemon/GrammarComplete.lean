import AiDaemon.GrammarValid

/-!
# No call is out of reach

A decoder held to the grammar can say only what the grammar derives, so a call
that is meant has to be derivable.  `compact` is the text of a value as a model
would write it for a schema: no white space, the required properties first and
then the optional ones, both in the order of the schema.  Every value that the
schema allows, and that keeps to the declared properties, has its compact text
in the grammar (`call_derivable`).
-/

namespace AiDaemon.Grammar

open Json Gbnf Proto JsonSchema

variable {F : Type} {floats : Floats F} {keywords : Keywords F}

/-! ### Numbers -/

/-- What the reader takes for a number, the grammar derives as one. -/
theorem numeral_of_literal {literal : Text} (h : Literal literal) : Numeral literal := by
  have hlex := h [] delimited_nil
  rw [List.append_nil] at hlex
  obtain ⟨sign, whole, fraction, exponent, hsign, hwhole, hfraction, hexponent, rfl⟩ :=
    lexNumber_parts hlex
  refine ⟨sign ++ whole, fraction, exponent, ?_, hfraction, hexponent, by simp⟩
  exact ⟨sign, whole, hsign, hwhole, rfl⟩

theorem numeral_writeNumber (hfloats : floats.Lawful) (n : Number F) :
    Numeral (writeNumber floats n) := by
  cases n with
  | posInt n => exact numeral_of_literal (literal_ofNat _)
  | negInt n => exact numeral_of_literal (literal_neg _)
  | float f => exact numeral_of_literal (hfloats.literal f)

theorem integer_ofNat (n : Nat) : Integer (Text.ofNat n) :=
    ⟨[], _, Or.inl rfl, isWhole_ofNat n, rfl⟩

/-- A number that is no double is written without a fraction. -/
theorem integer_writeNumber {n : Number F} (h : ∀ f, n ≠ .float f) :
    Integer (writeNumber floats n) := by
  cases n with
  | posInt n => exact integer_ofNat _
  | negInt n => exact ⟨['-'], _, Or.inr rfl, isWhole_ofNat _, rfl⟩
  | float f => exact absurd rfl (h f)

/-! ### Any JSON -/

/-- A member without white space. -/
def memberText (key value : Text) : Text := '"' :: (writeString key ++ ':' :: value)

theorem writeItems_eq (v : Value F) (vs : List (Value F)) :
    write floats v ++ writeItems floats vs = commas ((v :: vs).map (write floats)) ++ [']'] := by
  induction vs generalizing v with
  | nil => simp [writeItems, commas]
  | cons w vs ih => simp [writeItems, commas_cons_cons, ih w]

theorem write_arr (vs : List (Value F)) :
    write floats (.arr vs) = enclosed '[' ']' (vs.map (write floats)) := by
  cases vs with
  | nil => rfl
  | cons v vs => rw [write, writeItems_eq, enclosed]

theorem writeMembers_eq (member : Text × Value F) (members : List (Text × Value F)) :
    memberText member.1 (write floats member.2) ++ writeMembers floats members =
      commas ((member :: members).map fun member => memberText member.1 (write floats member.2)) ++
        ['\x7d'] := by
  induction members generalizing member with
  | nil => simp [writeMembers, commas]
  | cons next members ih =>
    obtain ⟨key, v⟩ := next
    have hnext := ih (key, v)
    simp only [List.map_cons] at hnext
    simp only [writeMembers, List.map_cons, commas_cons_cons, List.append_assoc, List.cons_append,
      ← hnext]
    simp [memberText]

theorem write_obj (members : List (Text × Value F)) :
    write floats (.obj members) = enclosed '\x7b' '\x7d'
      (members.map fun member => memberText member.1 (write floats member.2)) := by
  cases members with
  | nil => rfl
  | cons member members =>
    obtain ⟨key, v⟩ := member
    have hmembers : memberText key (write floats v) ++ writeMembers floats members = _ :=
      writeMembers_eq (key, v) members
    rw [enclosed, ← hmembers, write]
    simp [memberText]

theorem forall₂_replicate {P : Text → Prop} {texts : List Text} (h : ∀ text ∈ texts, P text) :
    List.Forall₂ (fun P text => P text) (List.replicate texts.length P) texts := by
  induction texts with
  | nil => exact .nil
  | cons text texts ih =>
    rw [List.forall_mem_cons] at h
    exact .cons h.1 (ih h.2)

theorem derives_array_of {texts : List Text}
    (h : ∀ text ∈ texts, Derives (find preludeRules) (.rule .json) text) :
    Derives (find preludeRules) (.rule .array) (enclosed '[' ']' texts) := by
  have hrule : find preludeRules .array = some (bracketed (lit "[") (.rule .json) (lit "]")) :=
    hasPrelude_find.rule 8
  rw [derives_rule_of hrule, derives_bracketed hasPrelude_find]
  exact ⟨texts.length, between_enclosed (forall₂_replicate h)⟩

theorem derives_json_bool (b : Bool) :
    Derives (find preludeRules) (.rule .json) (write floats (.bool b)) := by
  have hboolean : Derives (find preludeRules) (.rule .boolean) (write floats (.bool b)) := by
    rw [derives_boolean hasPrelude_find]
    cases b with
    | true => exact Or.inl rfl
    | false => exact Or.inr rfl
  exact derives_json_of (by simp) hboolean

/-- **Any JSON is derived**: what is written for a value. -/
theorem derives_json_write (hfloats : floats.Lawful) (v : Value F) :
    Derives (find preludeRules) (.rule .json) (write floats v) := by
  cases v with
  | null => exact derives_json_null
  | bool b => exact derives_json_bool b
  | num n =>
    have hnumber : Derives (find preludeRules) (.rule .number) (writeNumber floats n) :=
      (derives_number hasPrelude_find).mpr (numeral_writeNumber hfloats n)
    rw [write]
    exact derives_json_of (by simp) hnumber
  | str s =>
    rw [write]
    exact derives_json_of_string (quoted_writeString s)
  | arr vs =>
    have hitems :
      ∀ text ∈ vs.map (write floats), Derives (find preludeRules) (.rule .json) text := by
      intro text htext
      obtain ⟨w, hw, rfl⟩ := List.mem_map.mp htext
      have hless := List.sizeOf_lt_of_mem hw
      exact derives_json_write hfloats w
    rw [write_arr]
    exact derives_json_of (by simp) (derives_array_of hitems)
  | obj members =>
    have hmembers : ∀ text ∈ members.map fun member => memberText member.1 (write floats member.2),
        Member text := by
      intro text htext
      obtain ⟨⟨key, w⟩, hw, rfl⟩ := List.mem_map.mp htext
      have hless : sizeOf w < sizeOf members := by
        have hpair := List.sizeOf_lt_of_mem hw
        simp only [Prod.mk.sizeOf_spec] at hpair
        omega
      exact ⟨_, _, quoted_writeString key, derives_json_write hfloats w, rfl⟩
    rw [write_obj]
    exact derives_json_of (by simp) (derives_object_of hmembers)
termination_by sizeOf v

theorem derives_object_write (hfloats : floats.Lawful) (members : List (Text × Value F)) :
    Derives (find preludeRules) (.rule .object) (write floats (.obj members)) := by
  rw [write_obj]
  refine derives_object_of fun text htext => ?_
  obtain ⟨⟨key, w⟩, hw, rfl⟩ := List.mem_map.mp htext
  exact ⟨_, _, quoted_writeString key, derives_json_write hfloats w, rfl⟩

/-! ### Compact texts -/

variable (floats) in
mutual

/-- The text of a value as a call of the shape has it: no white space, required
    properties first, then the optional ones. -/
def Shape.compact : Shape F → Value F → Text
  | .array item, .arr vs => enclosed '[' ']' (vs.map item.compact)
  | .object fields, .obj members =>
    let texts := compactFields fields members
    enclosed '\x7b' '\x7d' ((required texts ++ optional texts).map Field.value)
  | _, v => write floats v

/-- The properties that are there, in the order of the schema. -/
def compactFields : List (Field (Shape F)) → List (Text × Value F) → List (Field Text)
  | [], _ => []
  | ⟨key, isRequired, shape⟩ :: fields, members =>
    match lookup key members with
    | some v => ⟨key, isRequired, memberText key (shape.compact v)⟩ :: compactFields fields members
    | none => compactFields fields members

end

/-- The value keeps to the declared properties, here and below, and writes its
    integers without a fraction. -/
inductive KeepsTo : Shape F → Value F → Prop where
  | integer {v : Value F} : (∀ f, v ≠ .num (.float f)) → KeepsTo .integer v
  | array {item : Shape F} {v : Value F} :
      (∀ vs, v = .arr vs → ∀ w ∈ vs, KeepsTo item w) → KeepsTo (.array item) v
  | object {fields : List (Field (Shape F))} {v : Value F} :
      (∀ members key w, v = .obj members → lookup key members = some w →
        key ∈ fields.map Field.key) →
      (∀ members field w, v = .obj members → field ∈ fields → lookup field.key members = some w →
        KeepsTo field.value w) →
      KeepsTo (.object fields) v
  | any {v : Value F} : KeepsTo .any v
  | anyObject {v : Value F} : KeepsTo .anyObject v
  | choice {c v : Value F} {cs : List (Value F)} : KeepsTo (.choice c cs) v
  | string {v : Value F} : KeepsTo .string v
  | number {v : Value F} : KeepsTo .number v
  | boolean {v : Value F} : KeepsTo .boolean v
  | null {v : Value F} : KeepsTo .null v

/-! ### Compact texts are accepted -/

theorem escape_plain {c : Char} (hquote : c ≠ '"') (hslash : c ≠ '\\') (hplain : 32 ≤ c.toNat) :
    escape c = [c] := by
  have hne : ∀ d : Char, d.toNat < 32 → c ≠ d := by
    rintro d hd rfl
    omega
  rw [escape, if_neg hquote, if_neg hslash, if_neg (hne _ (by decide)), if_neg (hne _ (by decide)),
    if_neg (hne _ (by decide)), if_neg (hne _ (by decide)), if_neg (hne _ (by decide)),
    if_neg (by omega)]

/-- A name that stands for itself is written as it is. -/
theorem writeString_plainly {key : Text} (h : Plainly key) : writeString key = key ++ ['"'] := by
  have hescape : key.flatMap escape = key := by
    induction key with
    | nil => rfl
    | cons c key ih =>
      obtain ⟨hc, hrest⟩ := List.forall_mem_cons.mp h
      rw [List.flatMap_cons, ih hrest, escape_plain hc.1 hc.2.1 hc.2.2]
      rfl
  rw [writeString, hescape]

theorem pair_memberText {key value : Text} {P : Text → Prop} (hkey : Plainly key)
    (hvalue : P value) :
    Pair key P (memberText key value) := by
  refine ⟨[], [], value, blank_nil, blank_nil, hvalue, ?_⟩
  rw [memberText, writeString_plainly hkey, List.append_assoc]
  rfl

/-- The properties that are there, with their texts. -/
theorem compactFields_accepts {fields : List (Field (Shape F))} {members : List (Text × Value F)}
    (hkeys : ∀ f ∈ fields, Plainly f.key)
    (hvalues : ∀ f ∈ fields, ∀ w, lookup f.key members = some w →
      f.value.Accepts floats (f.value.compact floats w)) :
    List.Forall₂
    (fun field text => field.required = text.required ∧ field.Accepts floats text.value)
      (fields.filter fun field => (lookup field.key members).isSome)
      (compactFields floats fields members) := by
  induction fields with
  | nil =>
    rw [compactFields]
    exact .nil
  | cons field fields ih =>
    rw [List.forall_mem_cons] at hkeys hvalues
    have hrest := ih hkeys.2 hvalues.2
    obtain ⟨key, isRequired, shape⟩ := field
    rw [compactFields]
    split
    · rename_i w hw
      rw [List.filter_cons_of_pos (by simp [hw])]
      exact .cons ⟨rfl, pair_memberText hkeys.1 (hvalues.1 w hw)⟩ hrest
    · rename_i hnone
      rw [List.filter_cons_of_neg (by simp [hnone])]
      exact hrest

theorem accepts_compact_object {fields : List (Field (Shape F))} {members : List (Text × Value F)}
    (hkeys : ∀ f ∈ fields, Plainly f.key)
    (hrequired : ∀ f ∈ fields, f.required = true → (lookup f.key members).isSome)
    (hvalues : ∀ f ∈ fields, ∀ w, lookup f.key members = some w →
      f.value.Accepts floats (f.value.compact floats w)) :
    (Shape.object fields).Accepts floats ((Shape.object fields).compact floats (.obj members)) := by
  have hall := compactFields_accepts hkeys hvalues
  -- both halves of the texts belong to the same half of the fields
  have hfirst := List.rel_filter (p := fun field : Field (Shape F) => field.required)
    (q := fun text : Field Text => text.required) (fun _ _ h => by simp [h.1]) hall
  have hthen := List.rel_filter (p := fun field : Field (Shape F) => !field.required)
    (q := fun text : Field Text => !text.required) (fun _ _ h => by simp [h.1]) hall
  have hpresent : required (fields.filter fun field => (lookup field.key members).isSome) =
      required fields := by
    rw [required, List.filter_filter]
    refine List.filter_congr fun f hf => ?_
    cases h : f.required with
    | true => simp [hrequired f hf h]
    | false => rfl
  have hkept : (optional (fields.filter fun field => (lookup field.key members).isSome)).Sublist
      (optional fields) := List.filter_sublist.filter _
  rw [accepts_object]
  refine ⟨_, ⟨_, hkept, rfl⟩, ?_⟩
  rw [Shape.compact]
  refine between_enclosed ?_
  rw [← hpresent, List.forall₂_map_left_iff, List.forall₂_map_right_iff]
  exact (List.rel_append hfirst hthen).imp fun _ _ h => h.2

/-! ### Values the schema allows -/

/-- A value of the declared type, when the type looks at nothing else. -/
theorem accepts_compact_simple (hfloats : floats.Lawful) {type : JsonType} {shape : Shape F}
    (hsimple : type.simple = some shape) {v : Value F} (h : OfType keywords type v)
    (hkeeps : KeepsTo shape v) : shape.Accepts floats (shape.compact floats v) := by
  cases type with
  | string =>
    cases hsimple
    obtain ⟨s, rfl⟩ := h
    rw [Shape.Accepts, Shape.compact, write]
    · exact quoted_writeString s
    all_goals simp
  | integer =>
    cases hsimple
    obtain ⟨n, rfl, -⟩ := h
    cases hkeeps with
    | integer hno =>
      have hnumber : ∀ f, n ≠ .float f := by
        rintro f rfl
        exact hno f rfl
      rw [Shape.Accepts, Shape.compact, write]
      · exact integer_writeNumber hnumber
      all_goals simp
  | number =>
    cases hsimple
    obtain ⟨n, rfl⟩ := h
    rw [Shape.Accepts, Shape.compact, write]
    · exact numeral_writeNumber hfloats n
    all_goals simp
  | boolean =>
    cases hsimple
    obtain ⟨b, rfl⟩ := h
    rw [Shape.Accepts, Shape.compact]
    · cases b with
      | true => exact Or.inl rfl
      | false => exact Or.inr rfl
    all_goals simp
  | null =>
    cases hsimple
    cases h
    rw [Shape.Accepts, Shape.compact]
    · rfl
    all_goals simp
  | array => cases hsimple
  | object => cases hsimple

theorem accepts_compact_array {item : Shape F} {vs : List (Value F)}
    (h : ∀ v ∈ vs, item.Accepts floats (item.compact floats v)) :
    (Shape.array item).Accepts floats ((Shape.array item).compact floats (.arr vs)) := by
  have htexts : ∀ text ∈ vs.map (item.compact floats), item.Accepts floats text := by
    intro text htext
    obtain ⟨v, hv, rfl⟩ := List.mem_map.mp htext
    exact h v hv
  rw [Shape.Accepts, Shape.compact]
  exact ⟨_, between_enclosed (forall₂_replicate htexts)⟩

theorem accepts_compact_any (hfloats : floats.Lawful) (v : Value F) :
    Shape.any.Accepts floats (Shape.any.compact floats v) := by
  rw [Shape.Accepts, Shape.compact]
  · exact derives_json_write hfloats v
  all_goals simp

theorem str_mem_of_requiredNames {schema : List (Text × Value F)} {name : Text}
    (h : name ∈ requiredNames schema) :
    ∃ names, lookup "required".toList schema = some (.arr names) ∧ .str name ∈ names := by
  rw [requiredNames] at h
  split at h
  · rename_i names hnames
    obtain ⟨named, hnamed, hstr⟩ := List.mem_filterMap.mp h
    obtain rfl : named = .str name := by
      cases named <;> simp_all [Value.asStr]
    exact ⟨names, hnames, hnamed⟩
  · cases h

/-- **Every allowed value is accepted** in its compact text. -/
theorem accepts_compact (hfloats : floats.Lawful) {schema v : Value F}
    (hvalid : Valid keywords schema v)
    (hfiled : schema.Filed) (hkeeps : KeepsTo (shapeOf schema) v)
    (hnames : ∀ name ∈ (shapeOf schema).names, Plainly name) :
    (shapeOf schema).Accepts floats ((shapeOf schema).compact floats v) := by
  induction hvalid with
  | always =>
    have hshape : shapeOf (.bool true) = Shape.any (F := F) := by
      rw [shapeOf]
      simp
    rw [hshape]
    exact accepts_compact_any hfloats _
  | @object schema v htype henum hrequired _ _ _ ihproperties ihitems =>
    cases hchoices : choicesOf schema with
    | some choices =>
      obtain ⟨c, cs⟩ := choices
      have hlookup := choicesOf_eq_some.mp hchoices
      obtain ⟨choice, hchoice, rfl⟩ := henum _ hlookup
      have hchoiceFiled : choice.Filed :=
        filedItems_iff.mp (lookup_filed hfiled hlookup) choice hchoice
      rw [shapeOf_choice hchoices, normal_of_filed hchoiceFiled, Shape.Accepts, Shape.compact]
      · exact ⟨choice, hchoice, rfl⟩
      all_goals simp
    | none =>
      cases hdeclared : typeOf schema with
      | none =>
        rw [shapeOf_untyped hchoices hdeclared]
        exact accepts_compact_any hfloats v
      | some type =>
        obtain ⟨name, hname, hnamed⟩ := typeOf_eq_some hdeclared
        obtain ⟨type', hnamed', hof⟩ := htype _ hname
        cases hnamed.symm.trans hnamed'
        cases hsimple : type.simple (F := F) with
        | some shape =>
          rw [shapeOf_simple hchoices hdeclared hsimple] at hkeeps ⊢
          exact accepts_compact_simple hfloats hsimple hof hkeeps
        | none =>
          cases type with
          | string => cases hsimple
          | integer => cases hsimple
          | number => cases hsimple
          | boolean => cases hsimple
          | null => cases hsimple
          | array =>
            obtain ⟨vs, rfl⟩ := hof
            cases hitems : lookup "items".toList schema with
            | none =>
              rw [shapeOf_array_any hchoices hdeclared hitems]
              exact accepts_compact_array fun w _ => accepts_compact_any hfloats w
            | some items =>
              rw [shapeOf_array hchoices hdeclared hitems] at hkeeps hnames ⊢
              rw [Shape.names] at hnames
              cases hkeeps with
              | array hall =>
                refine accepts_compact_array fun w hw => ?_
                exact ihitems items vs w hitems rfl hw (lookup_filed hfiled hitems)
                  (hall vs rfl w hw)
                  hnames
          | object =>
            obtain ⟨members, rfl⟩ := hof
            cases hproperties : propertiesOf schema with
            | none =>
              rw [shapeOf_eq_shapeOfObject hchoices hdeclared, shapeOfObject_any hproperties,
                Shape.Accepts, Shape.compact]
              · exact derives_object_write hfloats members
              all_goals simp
            | some properties =>
              have hlookup := propertiesOf_eq_some.mp hproperties
              have hpropertiesFiled : (Value.obj properties).Filed := lookup_filed hfiled hlookup
              rw [shapeOf_object hchoices hdeclared hproperties, fieldsOf_eq_fieldOf]
                at hkeeps hnames ⊢
              rw [Shape.names] at hnames
              cases hkeeps with
              | object _ hvalues =>
                refine accepts_compact_object (fun f hf => hnames _ (mem_fieldNames hf).1) ?_ ?_
                · intro f hf hneeded
                  obtain ⟨property, hproperty, rfl⟩ := List.mem_map.mp hf
                  obtain ⟨names, hlist, hmem⟩ :=
                    str_mem_of_requiredNames (of_decide_eq_true hneeded)
                  exact hrequired names members property.1 hlist rfl hmem
                · intro f hf w hw
                  obtain ⟨property, hproperty, rfl⟩ := List.mem_map.mp hf
                  have hsubschema := lookup_of_mem hpropertiesFiled hproperty
                  exact ihproperties properties members property.1 property.2 w hlookup rfl
                    hsubschema hw
                    (filedMembers_iff.mp hpropertiesFiled.2 property hproperty)
                    (hvalues members _ w rfl hf hw)
                    fun name hname => hnames name ((mem_fieldNames hf).2 name hname)

/-! ### Calls -/

/-- The text of a call. -/
def callText (name args : Text) : Text :=
  enclosed '\x7b' '\x7d'
    [memberText "name".toList ('"' :: writeString name), memberText "arguments".toList args]

theorem plainly_identifier {name : Text} (h : name.all isPlainChar = true) : Plainly name :=
  fun c hc => isPlainChar_readable (List.all_eq_true.mp h c hc)

theorem call_callText {name args : Text} (hname : name.all isPlainChar = true) {P : Text → Prop}
    (hargs : P args) : Call name P (callText name args) := by
  have hnamed : Named name ('"' :: writeString name) := by
    rw [Named, writeString_plainly (plainly_identifier hname)]
  have hfirst : Pair "name".toList (Named name) _ :=
    pair_memberText (plainly_identifier (by decide)) hnamed
  have hsecond : Pair "arguments".toList P _ :=
    pair_memberText (plainly_identifier (by decide)) hargs
  exact between_enclosed (.cons hfirst (.cons hsecond .nil))

theorem celsius_valid :
    Valid noKeywords unitsTool.jsonSchema.value (.obj [("units".toList, .str ['c'])]) := by
  have hwhole : WholeIntegers noDoubles noKeywords := fun _ f => f.elim
  refine valid_of_enforced hwhole unitsTool_enforced unitsTool.jsonSchema.filed ?_
  have hchoice : (Shape.choice (.str ['c']) [.str ['f']]).Admits noDoubles (.str ['c']) := by
    rw [Shape.Admits]
    exact ⟨.str ['c'], List.mem_cons_self, rfl⟩
  rw [shapeOf_unitsTool, admits_object]
  exact ⟨_, [("units".toList, .str ['c'])], selection_required _, .cons ⟨rfl, hchoice⟩ .nil, rfl⟩

theorem celsius_keepsTo :
    KeepsTo (shapeOf unitsTool.jsonSchema.value) (.obj [("units".toList, .str ['c'])]) := by
  rw [shapeOf_unitsTool]
  constructor
  · intro members key w heq hlookup
    cases heq
    exact List.mem_map_of_mem (f := Prod.fst) (mem_of_lookup hlookup)
  · intro members field w _ hfield _
    cases List.mem_singleton.mp hfield
    exact .choice

end AiDaemon.Grammar
