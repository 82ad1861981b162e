import AiDaemon.GrammarCompile
import AiDaemon.JsonFails

/-!
# Are the calls well formed?

The grammar is there so that malformed calls stop being an error class.  A text
of it is a call that parses when the arguments are built from values of an
`enum`, from booleans and nulls, in arrays and objects that nest no deeper than
the reader goes (`Shape.Safe`).  Elsewhere it admits texts that are no JSON: raw
control characters in a string, numbers no double holds, names with a backslash
as they are, values that nest too deeply.
-/

namespace AiDaemon.Grammar

open Json Gbnf Proto

variable {F : Type} {floats : Floats F} {depth : Nat}

theorem Blank.isBlank {w : Text} (h : Blank w) : IsBlank w := by
  intro c hc
  rcases h c hc with rfl | rfl | rfl
  · decide
  · decide
  · decide

/-! ### Parts that are read -/

/-- Every text of the language is read as a value. -/
def AllRead (floats : Floats F) (depth : Nat) (P : Text → Prop) : Prop :=
  ∀ text, P text → ∃ v, Reads floats depth text v

theorem readsItems_joined {P : Text → Prop} {Ps : List (Text → Prop)} (hP : AllRead floats depth P)
    (hPs : ∀ Q ∈ Ps, AllRead floats depth Q) {s t w : Text} (hs : P s) (ht : Tail Ps t)
    (hw : Blank w) :
    ∃ vs, ReadsItems floats depth (s ++ (t ++ (w ++ [']']))) vs := by
  induction Ps generalizing P s t with
  | nil =>
    cases ht
    obtain ⟨v, hv⟩ := hP s hs
    exact ⟨[v], .last hv hw.isBlank⟩
  | cons Q Qs ih =>
    rw [List.forall_mem_cons] at hPs
    obtain ⟨_, t, ⟨w₁, w₂, s', hw₁, hw₂, hs', rfl⟩, ht, rfl⟩ := ht
    obtain ⟨v, hv⟩ := hP s hs
    obtain ⟨vs, hvs⟩ := ih hPs.1 hPs.2 hs' ht
    refine ⟨v :: vs, ?_⟩
    have hmore := ReadsItems.more hv hw₁.isBlank hw₂.isBlank hvs
    simpa using hmore

theorem allRead_array {P : Text → Prop} (hdepth : 1 < depth) (hP : AllRead floats (depth - 1) P)
    {n : Nat} : AllRead floats depth (Between '[' ']' (List.replicate n P)) := by
  rintro text ⟨w, s, w', hw, hs, hw', rfl⟩
  cases n with
  | zero =>
    cases hs
    have hread : Reads floats depth _ _ := reads_arr_nil (hw.append hw').isBlank hdepth
    exact ⟨_, by simpa using hread⟩
  | succ n =>
    obtain ⟨s, t, hs, ht, rfl⟩ := hs
    have hPs : ∀ Q ∈ List.replicate n P, AllRead floats (depth - 1) Q := by
      intro Q hQ
      rw [List.eq_of_mem_replicate hQ]
      exact hP
    obtain ⟨vs, hvs⟩ := readsItems_joined hP hPs hs ht hw'
    have hread := reads_arr hw.isBlank hdepth hvs
    exact ⟨_, by simpa using hread⟩

/-- The name can stand between quotes as it is. -/
def ReadableKey (key : Text) : Prop := ∃ s, ReadsString (key ++ ['"']) s

/-- A member was read from a text of the pair. -/
def FromPair (floats : Floats F) (depth : Nat) (pair : Text × (Text → Prop))
    (member : Text × Value F) : Prop :=
  ReadsString (pair.1 ++ ['"']) member.1 ∧ ∃ text, pair.2 text ∧ Reads floats depth text member.2

/-- The languages of pairs of a name and a value. -/
def pairLanguages (pairs : List (Text × (Text → Prop))) : List (Text → Prop) :=
  pairs.map fun pair => Pair pair.1 pair.2

theorem readsMembers_joined {pair : Text × (Text → Prop)} {pairs : List (Text × (Text → Prop))}
    (hkeys : ∀ p ∈ pair :: pairs, ReadableKey p.1)
    (hvalues : ∀ p ∈ pair :: pairs, AllRead floats depth p.2) {s t w : Text}
    (hs : Pair pair.1 pair.2 s) (ht : Tail (pairLanguages pairs) t) (hw : Blank w) :
    ∃ members, List.Forall₂ (FromPair floats depth) (pair :: pairs) members ∧
      ReadsMembers floats depth (s ++ (t ++ (w ++ ['\x7d']))) members := by
  induction pairs generalizing pair s t with
  | nil =>
    cases ht
    obtain ⟨w₁, w₂, text, hw₁, hw₂, htext, rfl⟩ := hs
    obtain ⟨key, hkey⟩ := hkeys pair List.mem_cons_self
    obtain ⟨v, hv⟩ := hvalues pair List.mem_cons_self text htext
    refine ⟨[(key, v)], .cons ⟨hkey, text, htext, hv⟩ .nil, ?_⟩
    have hlast := ReadsMembers.last hkey hw₁.isBlank hw₂.isBlank hv hw.isBlank
    simpa using hlast
  | cons next pairs ih =>
    obtain ⟨_, t, ⟨w₃, w₄, s', hw₃, hw₄, hs', rfl⟩, ht, rfl⟩ := ht
    obtain ⟨members, hfrom, hmembers⟩ := ih (fun p hp => hkeys p (List.mem_cons_of_mem _ hp))
      (fun p hp => hvalues p (List.mem_cons_of_mem _ hp)) hs' ht
    obtain ⟨w₁, w₂, text, hw₁, hw₂, htext, rfl⟩ := hs
    obtain ⟨key, hkey⟩ := hkeys pair List.mem_cons_self
    obtain ⟨v, hv⟩ := hvalues pair List.mem_cons_self text htext
    refine ⟨(key, v) :: members, .cons ⟨hkey, text, htext, hv⟩ hfrom, ?_⟩
    have hmore := ReadsMembers.more hkey hw₁.isBlank hw₂.isBlank hv hw₃.isBlank hw₄.isBlank hmembers
    simpa using hmore

/-- An object of readable names and values is read, member by member. -/
theorem reads_object {pairs : List (Text × (Text → Prop))} (hdepth : 1 < depth)
    (hkeys : ∀ p ∈ pairs, ReadableKey p.1) (hvalues : ∀ p ∈ pairs, AllRead floats (depth - 1) p.2)
    {text : Text} (h : Between '\x7b' '\x7d' (pairLanguages pairs) text) :
    ∃ members, List.Forall₂ (FromPair floats (depth - 1)) pairs members ∧
      Reads floats depth text (.obj (collectMembers members)) := by
  obtain ⟨w, s, w', hw, hs, hw', rfl⟩ := h
  cases pairs with
  | nil =>
    cases hs
    have hread : Reads floats depth _ _ := reads_obj_nil (hw.append hw').isBlank hdepth
    exact ⟨[], .nil, by simpa [collectMembers] using hread⟩
  | cons pair pairs =>
    obtain ⟨s, t, hs, ht, rfl⟩ := hs
    obtain ⟨members, hfrom, hmembers⟩ := readsMembers_joined hkeys hvalues hs ht hw'
    refine ⟨members, hfrom, ?_⟩
    have hread := reads_obj hw.isBlank hdepth hmembers
    simpa using hread

/-! ### Shapes whose texts are all read -/

/-- The shapes whose texts a reader with this depth takes.  Strings, numbers
    and any JSON are never among them. -/
inductive Shape.Safe : Nat → Shape F → Prop where
  | choice {depth : Nat} {c : Value F} {cs : List (Value F)} :
      (∀ v ∈ c :: cs, v.nesting < depth) → Shape.Safe depth (.choice c cs)
  | boolean {depth : Nat} : Shape.Safe depth .boolean
  | null {depth : Nat} : Shape.Safe depth .null
  | array {depth : Nat} {item : Shape F} :
      1 < depth → Shape.Safe (depth - 1) item → Shape.Safe depth (.array item)
  | object {depth : Nat} {fields : List (Field (Shape F))} :
      1 < depth → (∀ field ∈ fields, ReadableKey field.key) →
      (∀ field ∈ fields, Shape.Safe (depth - 1) field.value) → Shape.Safe depth (.object fields)

theorem Selection.subset {α : Type} {fields chosen : List (Field α)} (h : Selection fields chosen)
    {field : Field α} (hfield : field ∈ chosen) : field ∈ fields := by
  obtain ⟨kept, hkept, rfl⟩ := h
  rcases List.mem_append.mp hfield with hfield | hfield
  · exact List.mem_of_mem_filter hfield
  · exact List.mem_of_mem_filter (hkept.subset hfield)

/-- The name and the language of the value of every field. -/
def fieldPairs (floats : Floats F) (fields : List (Field (Shape F))) : List
    (Text × (Text → Prop)) :=
  fields.map fun field => (field.key, field.value.Accepts floats)

theorem pairLanguages_fieldPairs (fields : List (Field (Shape F))) :
    pairLanguages (fieldPairs floats fields) = fields.map (Field.Accepts floats) := by
  rw [pairLanguages, fieldPairs, List.map_map]
  rfl

theorem allRead_of_safe (hfloats : floats.Lawful) {shape : Shape F} {depth : Nat}
    (h : shape.Safe depth) : AllRead floats depth (shape.Accepts floats) := by
  induction shape generalizing depth with
  | any => cases h
  | anyObject => cases h
  | string => cases h
  | integer => cases h
  | number => cases h
  | choice c cs =>
    cases h with
    | choice hnesting =>
      intro text haccepts
      rw [Shape.Accepts] at haccepts
      obtain ⟨v, hv, rfl⟩ := haccepts
      exact ⟨v.normal, reads_write hfloats v depth (hnesting v hv)⟩
  | boolean =>
    intro text haccepts
    rw [Shape.Accepts] at haccepts
    rcases haccepts with rfl | rfl
    · exact ⟨_, reads_bool true⟩
    · exact ⟨_, reads_bool false⟩
  | null =>
    intro text haccepts
    rw [Shape.Accepts] at haccepts
    subst haccepts
    exact ⟨_, reads_null⟩
  | array item ih =>
    cases h with
    | array hdepth hitem =>
      intro text haccepts
      rw [Shape.Accepts] at haccepts
      obtain ⟨n, haccepts⟩ := haccepts
      exact allRead_array hdepth (ih hitem) text haccepts
  | object fields ih =>
    cases h with
    | object hdepth hkeys hvalues =>
      intro text haccepts
      obtain ⟨chosen, hchosen, hbetween⟩ := (accepts_object floats).mp haccepts
      rw [← pairLanguages_fieldPairs] at hbetween
      have hkeys' : ∀ p ∈ fieldPairs floats chosen, ReadableKey p.1 := by
        intro p hp
        obtain ⟨field, hfield, rfl⟩ := List.mem_map.mp hp
        exact hkeys field (hchosen.subset hfield)
      have hvalues' : ∀ p ∈ fieldPairs floats chosen, AllRead floats (depth - 1) p.2 := by
        intro p hp
        obtain ⟨field, hfield, rfl⟩ := List.mem_map.mp hp
        exact ih field (hchosen.subset hfield) (hvalues field (hchosen.subset hfield))
      obtain ⟨members, -, hread⟩ := reads_object hdepth hkeys' hvalues' hbetween
      exact ⟨_, hread⟩

/-! ### Members that are refused -/

theorem blank_nil : Blank [] := by
  intro c hc
  cases hc

/-- Parts behind commas, when every language has a text. -/
theorem exists_tail {Ps : List (Text → Prop)} (h : ∀ P ∈ Ps, ∃ s, P s) :
    ∃ t, Tail Ps t ∧ ∀ rest, Delimited rest → Delimited (t ++ rest) := by
  induction Ps with
  | nil => exact ⟨[], rfl, fun rest hrest => hrest⟩
  | cons P Ps ih =>
    rw [List.forall_mem_cons] at h
    obtain ⟨s, hs⟩ := h.1
    obtain ⟨t, ht, -⟩ := ih h.2
    refine ⟨',' :: (s ++ t), ⟨',' :: s, t, ⟨[], [], s, blank_nil, blank_nil, hs, rfl⟩, ht, rfl⟩, ?_⟩
    intro rest _
    exact delimited_cons (by decide) _

theorem tail_of_joined {P : Text → Prop} {Ps : List (Text → Prop)} {s : Text}
    (h : Joined (P :: Ps) s) : Tail (P :: Ps) (',' :: s) := by
  obtain ⟨s, t, hs, ht, rfl⟩ := h
  exact ⟨',' :: s, t, ⟨[], [], s, blank_nil, blank_nil, hs, rfl⟩, ht, rfl⟩

theorem joined_one {P : Text → Prop} {s : Text} (h : P s) : Joined [P] s :=
  ⟨s, [], h, rfl, (List.append_nil _).symm⟩

/-- A pair with a text that is read. -/
def GoodPart (floats : Floats F) (depth : Nat) (pair : Text × (Text → Prop)) : Prop :=
  ReadableKey pair.1 ∧ ∃ text v, pair.2 text ∧ Reads floats depth text v

/-- A pair with a text that is refused, in the name or in the value. -/
def BadPart (floats : Floats F) (depth : Nat) (pair : Text × (Text → Prop)) : Prop :=
  ((∃ text, pair.2 text) ∧ ∀ rest, readString none (pair.1 ++ '"' :: '\n' :: rest) = none) ∨
    ReadableKey pair.1 ∧ ∃ text, pair.2 text ∧ Fails floats depth text

theorem GoodPart.text {pair : Text × (Text → Prop)}
    (h : GoodPart floats depth pair ∨ BadPart floats depth pair) : ∃ s, Pair pair.1 pair.2 s := by
  have htext : ∃ text, pair.2 text := by
    rcases h with ⟨-, text, v, htext, -⟩ | ⟨htext, -⟩ | ⟨-, text, htext, -⟩
    · exact ⟨text, htext⟩
    · exact htext
    · exact ⟨text, htext⟩
  obtain ⟨text, htext⟩ := htext
  exact ⟨_, [], [], text, blank_nil, blank_nil, htext, rfl⟩

/-- A refused pair is refused in front of anything. -/
theorem BadPart.refused {pair : Text × (Text → Prop)} (h : BadPart floats depth pair) :
    ∃ s, Pair pair.1 pair.2 s ∧ s.head? = some '"' ∧
      ∀ rest r, Delimited rest → ¬ GivesMembers floats depth (s ++ rest) r := by
  rcases h with ⟨⟨text, htext⟩, hkey⟩ | ⟨⟨key, hkey⟩, text, htext, hfails⟩
  · -- a line feed behind the name
    have hws : Blank ['\n'] := by simp [Blank]
    refine ⟨_, ⟨['\n'], [], text, hws, blank_nil, htext, rfl⟩, rfl, ?_⟩
    rintro rest r -
    refine not_givesMembers_key ?_
    simpa using hkey (':' :: (text ++ rest))
  · refine ⟨_, ⟨[], [], text, blank_nil, blank_nil, htext, rfl⟩, rfl, ?_⟩
    intro rest r hrest
    have hvalue := not_givesMembers_value hkey isBlank_nil isBlank_nil (hfails rest hrest) (r := r)
    simpa using hvalue

/-- The first pair that can be refused is refused behind pairs that are read. -/
theorem exists_refused {pairs : List (Text × (Text → Prop))}
    (hall : ∀ p ∈ pairs, GoodPart floats depth p ∨ BadPart floats depth p)
    (hbad : ∃ p ∈ pairs, BadPart floats depth p) :
    ∃ s, Joined (pairLanguages pairs) s ∧ s.head? = some '"' ∧
      ∀ rest r, ¬ GivesMembers floats depth (s ++ '\x7d' :: rest) r := by
  induction pairs with
  | nil =>
    obtain ⟨p, hp, -⟩ := hbad
    cases hp
  | cons pair pairs ih =>
    rw [List.forall_mem_cons] at hall
    by_cases hhead : BadPart floats depth pair
    · obtain ⟨s, hs, hquote, hrefused⟩ := hhead.refused
      have htexts : ∀ P ∈ pairLanguages pairs, ∃ s, P s := by
        intro P hP
        obtain ⟨p, hp, rfl⟩ := List.mem_map.mp hP
        exact GoodPart.text (hall.2 p hp)
      obtain ⟨t, ht, hdelimited⟩ := exists_tail htexts
      refine ⟨s ++ t, ⟨s, t, hs, ht, rfl⟩, ?_, ?_⟩
      · rw [List.head?_append, hquote]
        rfl
      · intro rest r
        rw [List.append_assoc]
        exact hrefused _ _ (hdelimited _ (delimited_cons (by decide) _))
    · obtain ⟨⟨key, hkey⟩, text, v, htext, hread⟩ := hall.1.resolve_right hhead
      have hbad' : ∃ p ∈ pairs, BadPart floats depth p := by
        rw [List.exists_mem_cons_iff] at hbad
        exact hbad.resolve_left hhead
      obtain ⟨s', hjoined, hquote', hrefused⟩ := ih hall.2 hbad'
      cases pairs with
      | nil =>
        obtain ⟨p, hp, -⟩ := hbad'
        cases hp
      | cons next pairs =>
        refine ⟨_, ⟨_, _, ⟨[], [], text, blank_nil, blank_nil, htext, rfl⟩,
          tail_of_joined hjoined, rfl⟩,
          rfl, ?_⟩
        intro rest r
        have hmore :=
          not_givesMembers_more hkey isBlank_nil isBlank_nil hread (hrefused rest) (r := r)
        simpa using hmore

/-! ### Every shape has a text -/

/-- Texts with commas between them and no white space. -/
def commas : List Text → Text
  | [] => []
  | [text] => text
  | text :: texts => text ++ ',' :: commas texts

theorem commas_cons_cons (text text' : Text) (texts : List Text) :
    commas (text :: text' :: texts) = text ++ ',' :: commas (text' :: texts) := rfl

/-- Texts between brackets. -/
def enclosed (opening closing : Char) (texts : List Text) : Text :=
  opening :: (commas texts ++ [closing])

/-- Any of the six alternatives. -/
theorem derives_json_of {e : Body} {text : Text}
    (he : e ∈ [.rule .string, .rule .number, .rule .object, .rule .array, .rule .boolean,
    lit "null"])
    (h : Derives (find preludeRules) e text) : Derives (find preludeRules) (.rule .json) text := by
  have hrule : find preludeRules .json = some (alts (.rule .string)
      [.rule .number, .rule .object, .rule .array, .rule .boolean, lit "null"]) :=
    hasPrelude_find.rule 9
  rw [derives_rule_of hrule, derives_alts]
  exact ⟨e, he, h⟩

theorem derives_json_null : Derives (find preludeRules) (.rule .json) "null".toList := by
  have hnull : Derives (find preludeRules) (lit "null") "null".toList := (unquote_lit rfl).mpr rfl
  exact derives_json_of (by simp) hnull

theorem derives_json_of_string {text : Text} (h : Quoted text) :
    Derives (find preludeRules) (.rule .json) text :=
  derives_json_of List.mem_cons_self ((derives_string hasPrelude_find).mpr h)

/-- A name and any JSON. -/
def Member (text : Text) : Prop :=
  ∃ key value, Quoted key ∧ Derives (find preludeRules) (.rule .json) value ∧
    text = key ++ ':' :: value

/-- The expressions of one member, and what follows. -/
theorem derivesAll_member {text rest : Text} {es : List Body} (h : Member text)
    (hrest : DerivesAll (find preludeRules) es rest) :
    DerivesAll (find preludeRules) ([.rule .string, ws, lit ":", ws, .rule .json] ++ es)
      (text ++ rest) := by
  obtain ⟨key, value, hkey, hvalue, rfl⟩ := h
  have hws : Derives (find preludeRules) ws [] := (derives_ws hasPrelude_find).mpr blank_nil
  have hcolon : Derives (find preludeRules) (lit ":") [':'] := (unquote_lit rfl).mpr rfl
  refine ⟨key, _, (derives_string hasPrelude_find).mpr hkey, ⟨[], _, hws, ⟨[':'], _, hcolon,
    ⟨[], _, hws, ⟨value, rest, hvalue, hrest, rfl⟩, rfl⟩, rfl⟩, rfl⟩, by simp⟩

/-- The members behind the first. -/
theorem derives_more_members (text : Text) {texts : List Text} (h : ∀ t ∈ texts, Member t) :
    ∃ rest, Derives (find preludeRules) (.star (.group (seqs ws
      [lit ",", ws, .rule .string, ws, lit ":", ws, .rule .json]))) rest ∧
      commas (text :: texts) = text ++ rest := by
  induction texts generalizing text with
  | nil => exact ⟨[], .starNil, (List.append_nil _).symm⟩
  | cons next texts ih =>
    rw [List.forall_mem_cons] at h
    obtain ⟨rest, hrest, hcommas⟩ := ih next h.2
    have hws : Derives (find preludeRules) ws [] := (derives_ws hasPrelude_find).mpr blank_nil
    have hcomma : Derives (find preludeRules) (lit ",") [','] := (unquote_lit rfl).mpr rfl
    have hmember :
      DerivesAll (find preludeRules) ([.rule .string, ws, lit ":", ws, .rule .json] ++ [])
        (next ++ []) := derivesAll_member h.1 rfl
    rw [List.append_nil, List.append_nil] at hmember
    refine ⟨(',' :: next) ++ rest, .starCons (.group (derives_seqs.mpr ?_)) hrest, ?_⟩
    · exact ⟨[], _, hws, ⟨[','], _, hcomma, ⟨[], _, hws, hmember, rfl⟩, rfl⟩, rfl⟩
    · rw [commas_cons_cons, hcommas, List.cons_append]

theorem derives_object_of {texts : List Text} (h : ∀ text ∈ texts, Member text) :
    Derives (find preludeRules) (.rule .object) (enclosed '\x7b' '\x7d' texts) := by
  have hrule : find preludeRules .object = some (seqs (lit "\x7b") [ws, .opt (.group
      (seqs (.rule .string) [ws, lit ":", ws, .rule .json,
        .star (.group (seqs ws [lit ",", ws, .rule .string, ws, lit ":", ws, .rule .json]))])),
      ws, lit "\x7d"]) := hasPrelude_find.rule 7
  have hopened : ∀ t, Derives (find preludeRules) (lit "\x7b") t ↔ t = ['\x7b'] :=
    fun t => unquote_lit rfl
  have hclosed : ∀ t, Derives (find preludeRules) (lit "\x7d") t ↔ t = ['\x7d'] :=
    fun t => unquote_lit rfl
  rw [derives_rule_of hrule,
    derives_between hasPrelude_find hopened hclosed (fun t => Iff.rfl)]
  refine ⟨[], commas texts, [], blank_nil, ?_, blank_nil, rfl⟩
  cases texts with
  | nil => exact .optNone
  | cons text texts =>
    rw [List.forall_mem_cons] at h
    obtain ⟨rest, hrest, hcommas⟩ := derives_more_members text h.2
    rw [hcommas]
    refine .optSome (.group (derives_seqs.mpr ?_))
    exact derivesAll_member h.1 ⟨rest, [], hrest, rfl, (List.append_nil _).symm⟩

/-- An object with one member. -/
theorem derives_object_of_string {text : Text} (h : Quoted text) :
    Derives (find preludeRules) (.rule .object)
      ('\x7b' :: (text ++ ':' :: ("null".toList ++ ['\x7d']))) := by
  have hmember : Member (text ++ ':' :: "null".toList) := ⟨text, _, h, derives_json_null, rfl⟩
  have hall : ∀ t ∈ [text ++ ':' :: "null".toList], Member t := by simpa using hmember
  have hobject := derives_object_of hall
  simpa [enclosed, commas] using hobject

theorem quoted_lineFeed : Quoted ['"', '\n', '"'] :=
  ⟨['\n'], .plain (by decide) (by decide) .nil, rfl⟩

theorem selection_required {α : Type} (fields : List (Field α)) :
    Selection fields (required fields) :=
  ⟨[], List.nil_sublist _, by simp⟩

theorem exists_joined {Ps : List (Text → Prop)} (h : ∀ P ∈ Ps, ∃ s, P s) : ∃ s, Joined Ps s := by
  cases Ps with
  | nil => exact ⟨[], rfl⟩
  | cons P Ps =>
    rw [List.forall_mem_cons] at h
    obtain ⟨s, hs⟩ := h.1
    obtain ⟨t, ht, -⟩ := exists_tail h.2
    exact ⟨s ++ t, s, t, hs, ht, rfl⟩

theorem between_of_joined {opening closing : Char} {Ps : List (Text → Prop)} {s : Text}
    (h : Joined Ps s) : Between opening closing Ps (opening :: (s ++ [closing])) :=
  ⟨[], s, [], blank_nil, h, blank_nil, rfl⟩

theorem joined_commas {Ps : List (Text → Prop)} {texts : List Text}
    (h : List.Forall₂ (fun P text => P text) Ps texts) : Joined Ps (commas texts) := by
  induction h with
  | nil => rfl
  | @cons P text Ps texts hfirst hrest ih =>
    cases hrest with
    | nil => exact joined_one hfirst
    | cons hsecond hrest =>
      rw [commas_cons_cons]
      exact ⟨text, _, hfirst, tail_of_joined ih, rfl⟩

theorem between_enclosed {opening closing : Char} {Ps : List (Text → Prop)} {texts : List Text}
    (h : List.Forall₂ (fun P text => P text) Ps texts) :
    Between opening closing Ps (enclosed opening closing texts) :=
  between_of_joined (joined_commas h)

/-- Ten to the 309th, which no double holds. -/
def huge : Text := '1' :: List.replicate 309 '0'

theorem isWhole_huge : IsWhole huge := by
  have hlead : huge.head? = some '1' := rfl
  refine ⟨List.cons_ne_nil _ _, ?_, Or.inl (by rw [hlead]; decide)⟩
  intro c hc
  rcases List.mem_cons.mp hc with rfl | hc
  · decide
  · rw [List.eq_of_mem_replicate hc]
    decide

theorem integer_huge : Integer huge := ⟨[], huge, Or.inl rfl, isWhole_huge, rfl⟩

theorem numeral_of_integer {text : Text} (h : Integer text) : Numeral text :=
  ⟨text, [], [], h, Or.inl rfl, Or.inl rfl, by simp⟩

theorem exists_text (floats : Floats F) (shape : Shape F) : ∃ text, shape.Accepts floats text := by
  induction shape with
  | any => exact ⟨_, by rw [Shape.Accepts]; exact derives_json_null⟩
  | anyObject => exact ⟨_, by rw [Shape.Accepts]; exact derives_object_of_string quoted_lineFeed⟩
  | choice c cs => exact ⟨_, by rw [Shape.Accepts]; exact ⟨c, List.mem_cons_self, rfl⟩⟩
  | string => exact ⟨_, by rw [Shape.Accepts]; exact quoted_lineFeed⟩
  | integer => exact ⟨_, by rw [Shape.Accepts]; exact integer_huge⟩
  | number => exact ⟨_, by rw [Shape.Accepts]; exact numeral_of_integer integer_huge⟩
  | boolean => exact ⟨_, by rw [Shape.Accepts]; exact Or.inl rfl⟩
  | null => exact ⟨_, by rw [Shape.Accepts]⟩
  | array item ih =>
    refine ⟨['[', ']'], ?_⟩
    rw [Shape.Accepts]
    exact ⟨0, between_of_joined (s := []) rfl⟩
  | object fields ih =>
    have htexts : ∀ P ∈ (required fields).map (Field.Accepts floats), ∃ s, P s := by
      intro P hP
      obtain ⟨field, hfield, rfl⟩ := List.mem_map.mp hP
      obtain ⟨text, htext⟩ := ih field (List.mem_of_mem_filter hfield)
      exact ⟨_, [], [], text, blank_nil, blank_nil, htext, rfl⟩
    obtain ⟨s, hs⟩ := exists_joined htexts
    exact ⟨_, (accepts_object floats).mpr ⟨_, selection_required fields, between_of_joined hs⟩⟩

/-! ### Shapes with a text that is refused -/

mutual

/-- The names of all properties. -/
def Shape.names : Shape F → List Text
  | .any => []
  | .anyObject => []
  | .choice _ _ => []
  | .string => []
  | .integer => []
  | .number => []
  | .boolean => []
  | .null => []
  | .array item => item.names
  | .object fields => fieldNames fields

def fieldNames : List (Field (Shape F)) → List Text
  | [] => []
  | ⟨key, _, shape⟩ :: fields => key :: (shape.names ++ fieldNames fields)

end

theorem mem_fieldNames_iff {fields : List (Field (Shape F))} {name : Text} :
    name ∈ fieldNames fields ↔ ∃ field ∈ fields, name = field.key ∨ name ∈ field.value.names := by
  induction fields with
  | nil => simp [fieldNames]
  | cons first fields ih =>
    obtain ⟨key, isRequired, shape⟩ := first
    simp [fieldNames, ih, or_assoc]

theorem mem_fieldNames {fields : List (Field (Shape F))} {field : Field (Shape F)}
    (h : field ∈ fields) :
    field.key ∈ fieldNames fields ∧ ∀ name ∈ field.value.names, name ∈ fieldNames fields := by
  constructor
  · exact mem_fieldNames_iff.mpr ⟨field, h, Or.inl rfl⟩
  · intro name hname
    exact mem_fieldNames_iff.mpr ⟨field, h, Or.inr hname⟩

/-- A double out of range is refused. -/
def Floats.Bounded (floats : Floats F) : Prop := floats.read huge = none

/-- A text of the shape that is refused, and can stand in an array. -/
def Refused (floats : Floats F) (depth : Nat) (shape : Shape F) : Prop :=
  ∃ text, shape.Accepts floats text ∧ Opens text ∧ Fails floats depth text

theorem fails_lineFeed : Fails floats depth ['"', '\n', '"'] := by
  rintro rest - r hgives
  have hread := (gives_scalar (by decide) (by decide) (by decide)).mp hgives
  have hnone : readString none ('\n' :: '"' :: rest) = none :=
    readString_control (by decide) (by decide) (by decide) _
  simp [readScalar, hnone] at hread

theorem fails_badKey :
    Fails floats depth ('\x7b' :: (['"', '\n', '"'] ++ ':' :: ("null".toList ++ ['\x7d']))) := by
  have hmembers : ∀ rest r, ¬ GivesMembers floats (depth - 1)
      (('"' :: '\n' :: '"' :: ':' :: "null".toList) ++ '\x7d' :: rest) r :=
    fun rest r => not_givesMembers_key (readString_control (by decide) (by decide) (by decide) _)
  exact fails_members rfl hmembers

theorem fails_huge (hbounded : Floats.Bounded floats) : Fails floats depth huge := by
  intro rest hrest r hgives
  have hliteral : Literal huge := by
    have h := literal_of_parts (Or.inl rfl) isWhole_huge (isTail_nil _) (isTail_nil _)
    simpa using h
  obtain ⟨n, hn, -⟩ := (gives_literal hliteral hrest).mp hgives
  have hlarge : ¬ Nat.ofDigitChars 10 huge 0 < 2 ^ 64 := by decide +kernel
  have hread : readNumber floats huge = none := by
    have hbig : ¬ (huge.all Char.isDigit = true ∧ Nat.ofDigitChars 10 huge 0 < 2 ^ 64) :=
      fun h => hlarge h.2
    rw [readNumber.eq_def]
    split
    · rename_i heq
      cases heq
    · rw [if_neg hbig, hbounded]
      rfl
  rw [hread] at hn
  cases hn

theorem accepts_array_one {item : Shape F} {text : Text} (h : item.Accepts floats text) :
    (Shape.array item).Accepts floats ('[' :: (text ++ [']'])) := by
  rw [Shape.Accepts]
  exact ⟨1, between_of_joined (joined_one h)⟩

theorem opens_bracket {c : Char} (hws : isWs c = false) (hc : c ≠ ']') (rest : Text) :
    Opens (c :: rest) :=
  ⟨c, rest, rfl, hws, hc⟩

/-- The required fields, and this one. -/
theorem exists_selection {α : Type} {fields : List (Field α)} {field : Field α}
    (h : field ∈ fields) :
    ∃ chosen, Selection fields chosen ∧ field ∈ chosen := by
  by_cases hrequired : field.required
  · exact ⟨required fields, selection_required fields, List.mem_filter.mpr ⟨h, hrequired⟩⟩
  · have hoptional : field ∈ optional fields := List.mem_filter.mpr ⟨h, by simpa using hrequired⟩
    exact ⟨required fields ++ [field], ⟨[field], List.singleton_sublist.mpr hoptional, rfl⟩,
      by simp⟩

/-- Every field is read, or can be refused. -/
theorem goodPart_or_badPart (hfloats : floats.Lawful) {field : Field (Shape F)}
    (hquote : '"' ∉ field.key)
    (hvalue : ¬ field.value.Safe depth → Refused floats depth field.value) :
    (ReadableKey field.key ∧ field.value.Safe depth ∧
        GoodPart floats depth (field.key, field.value.Accepts floats)) ∨
      BadPart floats depth (field.key, field.value.Accepts floats) := by
  obtain ⟨text, htext⟩ := exists_text floats field.value
  rcases nameReads none field.key hquote with ⟨s, hs⟩ | hnone
  · have hkey : ReadableKey field.key := by
      refine ⟨s, fun rest => ?_⟩
      rw [List.append_assoc]
      exact hs rest
    by_cases hsafe : field.value.Safe depth
    · obtain ⟨v, hv⟩ := allRead_of_safe hfloats hsafe text htext
      exact Or.inl ⟨hkey, hsafe, hkey, text, v, htext, hv⟩
    · obtain ⟨text', htext', -, hfails⟩ := hvalue hsafe
      exact Or.inr (Or.inr ⟨hkey, text', htext', hfails⟩)
  · exact Or.inr (Or.inl ⟨⟨text, htext⟩, hnone⟩)

theorem refused_object (hfloats : floats.Lawful) {fields : List (Field (Shape F))}
    (hquotes : ∀ field ∈ fields, '"' ∉ field.key)
    (hvalues : ∀ field ∈ fields, 1 < depth → ¬ field.value.Safe (depth - 1) →
      Refused floats (depth - 1) field.value)
    (h : ¬ (Shape.object fields).Safe depth) : Refused floats depth (.object fields) := by
  by_cases hdepth : 1 < depth
  · have hparts := fun field hfield => goodPart_or_badPart hfloats (hquotes field hfield)
      (hvalues field hfield hdepth)
    -- some field can be refused, or the object would be safe
    have hbad :
      ∃ field ∈ fields, BadPart floats (depth - 1) (field.key, field.value.Accepts floats) := by
      by_contra hnone
      simp only [not_exists, not_and] at hnone
      refine h (.object hdepth ?_ ?_)
      · intro field hfield
        exact ((hparts field hfield).resolve_right (hnone field hfield)).1
      · intro field hfield
        exact ((hparts field hfield).resolve_right (hnone field hfield)).2.1
    obtain ⟨field, hfield, hbad⟩ := hbad
    obtain ⟨chosen, hchosen, hmem⟩ := exists_selection hfield
    have hall : ∀ p ∈ fieldPairs floats chosen,
        GoodPart floats (depth - 1) p ∨ BadPart floats (depth - 1) p := by
      intro p hp
      obtain ⟨field', hfield', rfl⟩ := List.mem_map.mp hp
      rcases hparts field' (hchosen.subset hfield') with ⟨-, -, hgood⟩ | hbad
      · exact Or.inl hgood
      · exact Or.inr hbad
    obtain ⟨s, hs, hquote, hrefused⟩ :=
      exists_refused hall ⟨_, List.mem_map_of_mem hmem, hbad⟩
    rw [pairLanguages_fieldPairs] at hs
    exact ⟨_, (accepts_object floats).mpr ⟨chosen, hchosen, between_of_joined hs⟩,
      opens_bracket (by decide) (by decide) _, fails_members hquote hrefused⟩
  · obtain ⟨text, htext⟩ := exists_text floats (.object fields)
    obtain ⟨chosen, -, w, s, w', -, -, -, rfl⟩ := (accepts_object floats).mp htext
    exact ⟨_, htext, opens_bracket (by decide) (by decide) _, fails_shallow_obj hdepth _⟩

/-- **Every other shape** has a text that is no JSON. -/
theorem refused_of_not_safe (hfloats : floats.Lawful) (hbounded : Floats.Bounded floats)
    {shape : Shape F} (hquotes : ∀ name ∈ shape.names, '"' ∉ name) {depth : Nat} (hpos : 0 < depth)
    (h : ¬ shape.Safe depth) : Refused floats depth shape := by
  induction shape generalizing depth with
  | any =>
    refine ⟨_, ?_, opens_bracket (by decide) (by decide) _, fails_lineFeed⟩
    rw [Shape.Accepts]
    exact derives_json_of_string quoted_lineFeed
  | anyObject =>
    refine ⟨_, ?_, opens_bracket (by decide) (by decide) _, fails_badKey⟩
    rw [Shape.Accepts]
    exact derives_object_of_string quoted_lineFeed
  | choice c cs =>
    by_contra hnone
    refine h (.choice fun v hv => ?_)
    by_contra hnesting
    refine hnone ⟨_, ?_, opens_write hfloats v, fails_write hfloats v depth hpos hnesting⟩
    rw [Shape.Accepts]
    exact ⟨v, hv, rfl⟩
  | string =>
    refine ⟨_, ?_, opens_bracket (by decide) (by decide) _, fails_lineFeed⟩
    rw [Shape.Accepts]
    exact quoted_lineFeed
  | integer =>
    refine ⟨huge, ?_, opens_bracket (by decide) (by decide) _, fails_huge hbounded⟩
    rw [Shape.Accepts]
    exact integer_huge
  | number =>
    refine ⟨huge, ?_, opens_bracket (by decide) (by decide) _, fails_huge hbounded⟩
    rw [Shape.Accepts]
    exact numeral_of_integer integer_huge
  | boolean => exact absurd .boolean h
  | null => exact absurd .null h
  | array item ih =>
    rw [Shape.names] at hquotes
    by_cases hdepth : 1 < depth
    · have hitem : ¬ item.Safe (depth - 1) := fun hsafe => h (.array hdepth hsafe)
      obtain ⟨text, htext, hopens, hfails⟩ := ih hquotes (by omega) hitem
      exact ⟨_, accepts_array_one htext, opens_bracket (by decide) (by decide) _,
        fails_item hopens hfails⟩
    · obtain ⟨text, htext⟩ := exists_text floats item
      exact ⟨_, accepts_array_one htext, opens_bracket (by decide) (by decide) _,
        fails_shallow_arr hdepth _⟩
  | object fields ih =>
    rw [Shape.names] at hquotes
    refine refused_object hfloats (fun field hfield => hquotes _ (mem_fieldNames hfield).1) ?_ h
    intro field hfield hdepth hunsafe
    exact ih field hfield (fun name hname => hquotes name ((mem_fieldNames hfield).2 name hname))
      (by omega) hunsafe

/-! ### Calls -/

theorem isPlainChar_readable {c : Char} (h : isPlainChar c = true) :
    c ≠ '"' ∧ c ≠ '\\' ∧ 32 ≤ c.toNat := by
  refine ⟨?_, ?_, ?_⟩
  · rintro rfl
    exact absurd h (by decide)
  · rintro rfl
    exact absurd h (by decide)
  · by_contra hcontrol
    have hall : ∀ n < 32, isPlainChar (Char.ofNat n) = false := by decide
    have hfalse := hall c.toNat (by omega)
    rw [Char.ofNat_toNat, h] at hfalse
    cases hfalse

/-- Every call of the grammar is JSON, and an object with the name of the tool
    that was used and its arguments. -/
def CallsParse (floats : Floats F) (tools : List (ToolSchema (Schema F))) (compiled : Compiled) :
    Prop :=
  ∀ text, Derives compiled.grammar (.rule .root) text →
    (∃ i < tools.length, Derives compiled.grammar (.rule (.call i)) text) ∧
    ∀ i tool, tools[i]? = some tool → Derives compiled.grammar (.rule (.call i)) text →
      ∃ args, fromStr floats text =
        some (.obj [("arguments".toList, args), ("name".toList, .str tool.name)])

/-- The two pairs of a call. -/
def callPairs (name : Text) (P : Text → Prop) : List (Text × (Text → Prop)) :=
  [("name".toList, Named name), ("arguments".toList, P)]

theorem readsString_identifier {name : Text} (h : name.all isPlainChar = true) :
    ReadsString (name ++ ['"']) name := by
  refine readsString_plain fun c hc => isPlainChar_readable ?_
  exact List.all_eq_true.mp h c hc

theorem readsString_name : ReadsString ("name".toList ++ ['"']) "name".toList :=
  readsString_identifier (by decide)

theorem readsString_arguments : ReadsString ("arguments".toList ++ ['"']) "arguments".toList :=
  readsString_identifier (by decide)

theorem reads_named {name text : Text} (hname : name.all isPlainChar = true) (h : Named name text) :
    Reads floats depth text (.str name) := by
  rw [Named] at h
  subst h
  exact reads_str (readsString_identifier hname)

theorem collectMembers_pair {key key' : Text} (hne : key' ≠ key) (hless : key' < key)
    (v v' : Value F) : collectMembers [(key, v), (key', v')] = [(key', v'), (key, v)] := by
  simp only [collectMembers, List.foldl_cons, List.foldl_nil, insertMember, if_neg hne,
    if_pos hless]

/-- A call is read when the arguments are. -/
theorem call_parses {name : Text} (hname : name.all isPlainChar = true) {P : Text → Prop}
    (hP : AllRead floats (recursionLimit - 1) P) {text : Text} (h : Call name P text) :
    ∃ args, fromStr floats text =
      some (.obj [("arguments".toList, args), ("name".toList, .str name)]) := by
  have hkeys : ∀ p ∈ callPairs name P, ReadableKey p.1 := by
    intro p hp
    rcases List.mem_pair.mp hp with rfl | rfl
    · exact ⟨_, readsString_name⟩
    · exact ⟨_, readsString_arguments⟩
  have hvalues : ∀ p ∈ callPairs name P, AllRead floats (recursionLimit - 1) p.2 := by
    intro p hp
    rcases List.mem_pair.mp hp with rfl | rfl
    · exact fun text htext => ⟨_, reads_named hname htext⟩
    · exact hP
  obtain ⟨members, hfrom, hread⟩ := reads_object (by decide) hkeys hvalues h
  -- the members are what was read of the two pairs
  obtain ⟨⟨key, v⟩, _, ⟨hkey, s, hs, hv⟩, hrest, rfl⟩ := List.forall₂_cons_left_iff.mp hfrom
  obtain ⟨⟨key', args⟩, _, ⟨hkey', -⟩, hnil, rfl⟩ := List.forall₂_cons_left_iff.mp hrest
  cases List.forall₂_nil_left_iff.mp hnil
  obtain rfl : "name".toList = key := ReadsString.unique readsString_name hkey
  obtain rfl : "arguments".toList = key' := ReadsString.unique readsString_arguments hkey'
  obtain rfl : .str name = v := Reads.unique (reads_named hname hs) hv
  rw [collectMembers_pair (by decide) (by decide)] at hread
  refine ⟨args, fromStr_eq_some.mpr ⟨[], ?_, rfl⟩⟩
  have hgives := hread [] delimited_nil
  rwa [List.append_nil] at hgives

/-- A call is refused with its arguments. -/
theorem exists_refused_call {name : Text} (hname : name.all isPlainChar = true) {P : Text → Prop}
    {args : Text} (hargs : P args) (hfails : Fails floats (recursionLimit - 1) args) :
    ∃ text, Call name P text ∧ fromStr floats text = none := by
  have hnamed : Named name ('"' :: (name ++ ['"'])) := rfl
  have hgood : GoodPart floats (recursionLimit - 1) ("name".toList, Named name) :=
    ⟨⟨_, readsString_name⟩, _, _, hnamed, reads_named hname hnamed⟩
  have hbad : BadPart floats (recursionLimit - 1) ("arguments".toList, P) :=
    Or.inr ⟨⟨_, readsString_arguments⟩, args, hargs, hfails⟩
  have hall : ∀ p ∈ callPairs name P,
      GoodPart floats (recursionLimit - 1) p ∨ BadPart floats (recursionLimit - 1) p := by
    intro p hp
    rcases List.mem_pair.mp hp with rfl | rfl
    · exact Or.inl hgood
    · exact Or.inr hbad
  obtain ⟨s, hs, hquote, hrefused⟩ :=
    exists_refused hall ⟨_, List.mem_cons_of_mem _ (List.mem_singleton_self _), hbad⟩
  exact ⟨_, between_of_joined hs, fromStr_eq_none (fails_members hquote hrefused)⟩

/-- A reader that knows no doubles, as the texts below need none. -/
def noDoubles : Floats Empty := ⟨fun _ => none, Empty.elim⟩

theorem noDoubles_lawful : noDoubles.Lawful :=
  ⟨fun f => f.elim, fun f => f.elim, fun f => f.elim⟩

/-- An object with one required property. -/
def oneProperty (key : Text) (subschema : Value Empty) : List (Text × Value Empty) :=
  [ ("properties".toList, .obj [(key, subschema)]), ("required".toList, .arr [.str key]),
    ("type".toList, .str "object".toList) ]

theorem oneProperty_filed {key : Text} {subschema : Value Empty} (h : subschema.Filed) :
    (Value.obj (oneProperty key subschema)).Filed := by
  have hsorted : ["properties".toList, "required".toList, "type".toList].Pairwise (· < ·) :=
    by decide
  refine ⟨hsorted, ?_⟩
  simp [oneProperty, FiledMembers, Value.Filed, FiledItems, h]

theorem shapeOf_oneProperty (key : Text) (subschema : Value Empty) :
    shapeOf (.obj (oneProperty key subschema)) = .object [⟨key, true, shapeOf subschema⟩] := by
  have henum : choicesOf (oneProperty key subschema) = none := rfl
  have htype : typeOf (oneProperty key subschema) = some .object := rfl
  have hproperties : propertiesOf (oneProperty key subschema) = some [(key, subschema)] := rfl
  have hrequired : requiredNames (oneProperty key subschema) = [key] := rfl
  rw [shapeOf_object henum htype hproperties, hrequired, fieldsOf_eq_map]
  simp

/-- `set_units`, which takes one of two letters. -/
def unitsTool : ToolSchema (Schema Empty) where
  name := "set_units".toList
  description := []
  jsonSchema :=
    ⟨.obj (oneProperty "units".toList (.obj [("enum".toList, .arr [.str ['c'], .str ['f']])])),
      oneProperty_filed (by simp [Value.Filed, FiledMembers, FiledItems])⟩

theorem shapeOf_unitsTool : shapeOf unitsTool.jsonSchema.value =
    .object [⟨"units".toList, true, .choice (.str ['c']) [.str ['f']]⟩] := by
  have hshape : shapeOf (.obj [("enum".toList, .arr [.str ['c'], .str ['f']])]) =
      .choice (.str ['c']) [.str ['f']] := shapeOf_choice (F := Empty) rfl
  have hobject :=
    shapeOf_oneProperty "units".toList (.obj [("enum".toList, .arr [.str ['c'], .str ['f']])])
  rw [hshape] at hobject
  exact hobject

theorem unitsTool_safe : (shapeOf unitsTool.jsonSchema.value).Safe (recursionLimit - 1) := by
  rw [shapeOf_unitsTool]
  have hkey : ReadableKey "units".toList := ⟨_, readsString_identifier (by decide)⟩
  have hunits :
    (Shape.choice (F := Empty) (.str ['c']) [.str ['f']]).Safe (recursionLimit - 1 - 1) := by
    refine .choice ?_
    simp [Value.nesting, recursionLimit]
  refine .object (by decide) ?_ ?_
  · simpa using hkey
  · simpa using hunits

/-- `note`, which takes a string. -/
def noteTool : ToolSchema (Schema Empty) where
  name := "note".toList
  description := []
  jsonSchema :=
    ⟨.obj (oneProperty "text".toList (.obj [("type".toList, .str "string".toList)])),
      oneProperty_filed (by simp [Value.Filed, FiledMembers])⟩

/-- A call of `note` with a line feed in the string. -/
def noteCall : Text :=
  "\x7b\"name\":\"note\",\"arguments\":\x7b\"text\":\"a\nb\"\x7d\x7d".toList

theorem shapeOf_noteTool :
    shapeOf noteTool.jsonSchema.value = .object [⟨"text".toList, true, .string⟩] := by
  have hshape :
    shapeOf (.obj [("type".toList, .str "string".toList)]) = Shape.string (F := Empty) :=
    shapeOf_simple rfl (show typeOf _ = some .string from rfl) rfl
  have hobject := shapeOf_oneProperty "text".toList (.obj [("type".toList, .str "string".toList)])
  rw [hshape] at hobject
  exact hobject

/-- The arguments of the call are a text of the shape. -/
theorem noteTool_accepts : (shapeOf noteTool.jsonSchema.value).Accepts noDoubles
    ('\x7b' :: ("\"text\":\"a\nb\"".toList ++ ['\x7d'])) := by
  have hstring : Quoted "\"a\nb\"".toList :=
    ⟨['a', '\n', 'b'], .plain (by decide) (by decide) (.plain (by decide) (by decide)
      (.plain (by decide) (by decide) .nil)), rfl⟩
  have hpair : Field.Accepts noDoubles ⟨"text".toList, true, .string⟩ "\"text\":\"a\nb\"".toList :=
    ⟨[], [], "\"a\nb\"".toList, blank_nil, blank_nil, by rw [Shape.Accepts]; exact hstring, rfl⟩
  rw [shapeOf_noteTool, accepts_object]
  exact ⟨_, selection_required _, between_of_joined (joined_one hpair)⟩

end AiDaemon.Grammar
