import AiDaemon.GrammarSound

/-!
# The values of a shape

`Shape.Admits` is the set of values a shape stands for, with no word on how they
are written.  What is read of an accepted text is such a value
(`readAs_admits`), and such a value is read of some accepted text
(`written_of_admits`), as long as the names stand for themselves.
-/

namespace AiDaemon.Grammar

open Json Gbnf

variable {F : Type} (floats : Floats F)

/-- A field of values and a member that fills it. -/
def Fills (field : Field (Value F → Prop)) (member : Text × Value F) : Prop :=
  member.1 = field.key ∧ field.value member.2

mutual

/-- The values of a shape. -/
def Shape.Admits : Shape F → Value F → Prop
  | .any, _ => True
  | .anyObject, v => ∃ members, v = .obj members
  | .choice choice choices, v => ∃ w ∈ choice :: choices, v = w.normal
  | .string, v => ∃ s, v = .str s
  | .integer, v => ∃ literal n, Integer literal ∧ readNumber floats literal = some n ∧ v = .num n
  | .number, v => ∃ literal n, Numeral literal ∧ readNumber floats literal = some n ∧ v = .num n
  | .boolean, v => ∃ b, v = .bool b
  | .null, v => v = .null
  | .array item, v => ∃ vs, v = .arr vs ∧ ∀ w ∈ vs, item.Admits w
  | .object fields, v =>
    ∃ chosen members, Selection (admissions fields) chosen ∧ List.Forall₂ Fills chosen members ∧
      v = .obj (collectMembers members)

def admissions : List (Field (Shape F)) → List (Field (Value F → Prop))
  | [] => []
  | ⟨key, required, shape⟩ :: fields => ⟨key, required, shape.Admits⟩ :: admissions fields

end

theorem admissions_eq_map (fields : List (Field (Shape F))) :
    admissions floats fields = fields.map (Field.map (Shape.Admits floats)) := by
  induction fields with
  | nil => rw [admissions, List.map_nil]
  | cons field fields ih =>
    rw [admissions, ih]
    rfl

/-- A member that fills a field. -/
def Field.Admits (field : Field (Shape F)) (member : Text × Value F) : Prop :=
  member.1 = field.key ∧ field.value.Admits floats member.2

theorem admits_object {fields : List (Field (Shape F))} {v : Value F} :
    (Shape.object fields).Admits floats v ↔
      ∃ chosen members, Selection fields chosen ∧
        List.Forall₂ (Field.Admits floats) chosen members ∧ v = .obj (collectMembers members) := by
  rw [Shape.Admits, admissions_eq_map]
  simp only [selection_map]
  constructor
  · rintro ⟨_, members, ⟨chosen, hchosen, rfl⟩, hfills, rfl⟩
    rw [List.forall₂_map_left_iff] at hfills
    exact ⟨chosen, members, hchosen, hfills, rfl⟩
  · rintro ⟨chosen, members, hchosen, hfills, rfl⟩
    refine ⟨_, members, ⟨chosen, hchosen, rfl⟩, ?_, rfl⟩
    rw [List.forall₂_map_left_iff]
    exact hfills

/-! ### Strings -/

/-- A key that stands for itself is read as itself, when it is read. -/
theorem readString_bare {key more s rest : Text} (hkey : ∀ c ∈ key, c ≠ '"' ∧ c ≠ '\\')
    (h : readString none (key ++ '"' :: more) = some (s, rest)) : s = key ∧ rest = more := by
  induction key generalizing s with
  | nil =>
    cases h
    exact ⟨rfl, rfl⟩
  | cons c key ih =>
    rw [List.forall_mem_cons] at hkey
    obtain ⟨⟨hquote, hslash⟩, hrest⟩ := hkey
    rw [List.cons_append] at h
    by_cases hplain : 32 ≤ c.toNat
    · rw [readString_plain hquote hslash hplain] at h
      obtain ⟨s', hread, rfl⟩ := map_cons_eq_some.mp h
      obtain ⟨rfl, rfl⟩ := ih hrest hread
      exact ⟨rfl, rfl⟩
    · rw [readString_control hquote hslash hplain] at h
      cases h

theorem readString_afterUnicode {lead : Option Nat} {a b c d : Char} {more s rest : Text}
    (h : readString lead ('\\' :: 'u' :: a :: b :: c :: d :: more) = some (s, rest)) :
    ∃ lead' s', readString lead' more = some (s', rest) := by
  rw [readString] at h
  split at h
  · cases h
  · split at h
    · cases h
    · exact ⟨_, s, h⟩
    · obtain ⟨s', hread, -⟩ := map_cons_eq_some.mp h
      exact ⟨none, s', hread⟩

/-- A string of the grammar ends where the reader ends it. -/
theorem Chars.readString_rest {text : Text} (h : Chars text) {lead : Option Nat}
    {more s rest : Text}
    (hread : readString lead (text ++ '"' :: more) = some (s, rest)) : rest = more := by
  induction h generalizing lead s with
  | nil =>
    cases lead with
    | none =>
      cases hread
      rfl
    | some n =>
      rw [List.nil_append, readString_pending (by decide)] at hread
      cases hread
  | @plain c tail hquote hslash _ ih =>
    rw [List.cons_append] at hread
    cases lead with
    | some n =>
      rw [readString_pending hslash] at hread
      cases hread
    | none =>
      by_cases hplain : 32 ≤ c.toNat
      · rw [readString_plain hquote hslash hplain] at hread
        obtain ⟨s', hread, -⟩ := map_cons_eq_some.mp hread
        exact ih hread
      · rw [readString_control hquote hslash hplain] at hread
        cases hread
  | @short c tail hc _ ih =>
    have hu : c ≠ 'u' := by
      rintro rfl
      exact absurd hc (by decide)
    rw [List.cons_append, List.cons_append] at hread
    cases lead with
    | some n =>
      rw [readString_badEscape hu (Or.inl (by simp))] at hread
      cases hread
    | none =>
      cases hmade : unescape c with
      | none =>
        rw [readString_badEscape hu (Or.inr hmade)] at hread
        cases hread
      | some made =>
        rw [readString_escaped hmade] at hread
        obtain ⟨s', hread, -⟩ := map_cons_eq_some.mp hread
        exact ih hread
  | unicode _ _ _ _ _ ih =>
    obtain ⟨lead', s', hread⟩ := readString_afterUnicode hread
    exact ih hread

/-- What is written for a character is a character of the grammar. -/
theorem chars_escape (c : Char) {rest : Text} (hrest : Chars rest) : Chars (escape c ++ rest) := by
  unfold escape
  split_ifs with hquote hslash hn hr ht hb hf hcontrol
  · exact .short (by decide) hrest
  · exact .short (by decide) hrest
  · exact .short (by decide) hrest
  · exact .short (by decide) hrest
  · exact .short (by decide) hrest
  · exact .short (by decide) hrest
  · exact .short (by decide) hrest
  · have hhigh := hexDigit_digitChar (c.toNat / 16) (by omega)
    have hlow := hexDigit_digitChar (c.toNat % 16) (by omega)
    exact .unicode (by decide) (by decide) (by rw [hhigh]; rfl) (by rw [hlow]; rfl) hrest
  · exact .plain hquote hslash hrest

theorem quoted_writeString (s : Text) : Quoted ('"' :: writeString s) := by
  refine ⟨s.flatMap escape, ?_, rfl⟩
  induction s with
  | nil => exact .nil
  | cons c s ih =>
    rw [List.flatMap_cons]
    exact chars_escape c ih

/-! ### What is read of an accepted text -/

variable {floats} {depth : Nat}

/-- Whatever is read of a text of the one set is a value of the other, and the
    whole text is read. -/
def ReadAs (floats : Floats F) (depth : Nat) (P : Text → Prop) (Q : Value F → Prop) : Prop :=
  ∀ text rest v rest', P text → Delimited rest → Gives floats depth (text ++ rest) (v, rest') →
    rest' = rest ∧ Q v

/-- Behind a part there is a comma or the closing mark. -/
theorem delimited_tail {Ps : List (Text → Prop)} {t w : Text} (ht : Tail Ps t) (hw : Blank w)
    {closing : Char}
    (hclosing : closing.isDigit = false ∧ closing ≠ '.' ∧ closing ≠ 'e' ∧ closing ≠ 'E')
    (rest : Text) : Delimited (t ++ (w ++ closing :: rest)) := by
  cases Ps with
  | nil =>
    cases ht
    rw [List.nil_append]
    exact delimited_ws hw.isBlank (delimited_cons hclosing _)
  | cons P Ps =>
    obtain ⟨_, t, ⟨w₁, w₂, s, hw₁, -, -, rfl⟩, -, rfl⟩ := ht
    rw [List.append_assoc, List.append_assoc]
    exact delimited_ws hw₁.isBlank (delimited_cons (by decide) _)

theorem readAs_items {P : Text → Prop} {Q : Value F → Prop} (hP : ReadAs floats depth P Q) {n : Nat}
    {s t w rest rest' : Text} {vs : List (Value F)} (hs : P s) (ht : Tail (List.replicate n P) t)
    (hw : Blank w) (h : GivesItems floats depth (s ++ (t ++ (w ++ ']' :: rest))) (vs, rest')) :
    rest' = rest ∧ ∀ v ∈ vs, Q v := by
  induction n generalizing s t vs with
  | zero =>
    obtain ⟨v, more, hv, hmore⟩ := givesItems_iff.mp h
    obtain ⟨rfl, hQ⟩ := hP _ _ _ _ hs (delimited_tail ht hw (by decide) _) hv
    cases ht
    rw [List.nil_append, skipWs_blank_cons hw.isBlank (by decide)] at hmore
    rcases hmore with ⟨rest₁, vs', rest₂, hcomma, -⟩ | ⟨rest₁, hclose, heq⟩
    · cases hcomma
    · cases hclose
      cases heq
      exact ⟨rfl, by simpa using hQ⟩
  | succ n ih =>
    obtain ⟨v, more, hv, hmore⟩ := givesItems_iff.mp h
    obtain ⟨rfl, hQ⟩ := hP _ _ _ _ hs (delimited_tail ht hw (by decide) _) hv
    obtain ⟨_, t, ⟨w₁, w₂, s', hw₁, hw₂, hs', rfl⟩, ht, rfl⟩ := ht
    simp only [List.append_assoc, List.cons_append] at hmore
    rw [skipWs_blank_cons hw₁.isBlank (by decide)] at hmore
    rcases hmore with ⟨rest₁, vs', rest₂, hcomma, hitems, heq⟩ | ⟨rest₁, hclose, -⟩
    · cases hcomma
      cases heq
      rw [← givesItems_skipWs, skipWs_append hw₂.isBlank, givesItems_skipWs] at hitems
      obtain ⟨rfl, hrest⟩ := ih hs' ht hitems
      exact ⟨rfl, List.forall_mem_cons.mpr ⟨hQ, hrest⟩⟩
    · cases hclose

/-- Names that stand for themselves. -/
def Bare (key : Text) : Prop := ∀ c ∈ key, c ≠ '"' ∧ c ≠ '\\'

/-- The first member: its name, and a value behind the colon. -/
theorem readAs_member {field : Field (Shape F)} (hkey : Bare field.key)
    (hvalue : ReadAs floats depth (field.value.Accepts floats) (field.value.Admits floats))
    {s more rest' : Text} {members : List (Text × Value F)} (hs : field.Accepts floats s)
    (hmore : Delimited more) (h : GivesMembers floats depth (s ++ more) (members, rest')) :
    ∃ v, field.value.Admits floats v ∧
      ((∃ rest₁ members' rest₂, skipWs more = ',' :: rest₁ ∧
          GivesMembers floats depth rest₁ (members', rest₂) ∧
          (members, rest') = ((field.key, v) :: members', rest₂)) ∨
        ∃ rest₁, skipWs more = '\x7d' :: rest₁ ∧ (members, rest') = ([(field.key, v)], rest₁)) := by
  obtain ⟨w, w', text, hw, hw', htext, rfl⟩ := hs
  simp only [List.append_assoc, List.cons_append] at h
  obtain ⟨_, key, rest₁, rest₂, v, rest₃, hquote, hread, hcolon, hv, hrest⟩ := givesMembers_iff.mp h
  rw [skipWs_cons (by decide)] at hquote
  cases hquote
  obtain ⟨rfl, rfl⟩ := readString_bare hkey hread
  rw [skipWs_blank_cons hw.isBlank (by decide)] at hcolon
  cases hcolon
  rw [gives_ws hw'.isBlank] at hv
  obtain ⟨rfl, hadmits⟩ := hvalue _ _ _ _ htext hmore hv
  exact ⟨v, hadmits, hrest⟩

theorem readAs_members {field : Field (Shape F)} {fields : List (Field (Shape F))}
    (hkeys : ∀ f ∈ field :: fields, Bare f.key)
    (hvalues : ∀ f ∈ field :: fields,
      ReadAs floats depth (f.value.Accepts floats) (f.value.Admits floats))
    {s t w rest rest' : Text} {members : List (Text × Value F)} (hs : field.Accepts floats s)
    (ht : Tail (fields.map (Field.Accepts floats)) t) (hw : Blank w)
    (h : GivesMembers floats depth (s ++ (t ++ (w ++ '\x7d' :: rest))) (members, rest')) :
    rest' = rest ∧ List.Forall₂ (Field.Admits floats) (field :: fields) members := by
  rw [List.forall_mem_cons] at hkeys hvalues
  obtain ⟨v, hadmits, hmore⟩ :=
    readAs_member hkeys.1 hvalues.1 hs (delimited_tail ht hw (by decide) _) h
  induction fields generalizing field s t v members with
  | nil =>
    cases ht
    rw [List.nil_append, skipWs_blank_cons hw.isBlank (by decide)] at hmore
    rcases hmore with ⟨rest₁, members', rest₂, hcomma, -⟩ | ⟨rest₁, hclose, heq⟩
    · cases hcomma
    · cases hclose
      cases heq
      exact ⟨rfl, .cons ⟨rfl, hadmits⟩ .nil⟩
  | cons next fields ih =>
    obtain ⟨_, t, ⟨w₁, w₂, s', hw₁, hw₂, hs', rfl⟩, ht, rfl⟩ := ht
    simp only [List.append_assoc, List.cons_append] at hmore
    rw [skipWs_blank_cons hw₁.isBlank (by decide)] at hmore
    rcases hmore with ⟨rest₁, members', rest₂, hcomma, hmembers, heq⟩ | ⟨rest₁, hclose, -⟩
    · cases hcomma
      cases heq
      rw [← givesMembers_skipWs, skipWs_append hw₂.isBlank, givesMembers_skipWs] at hmembers
      have hkeys' := List.forall_mem_cons.mp hkeys.2
      have hvalues' := List.forall_mem_cons.mp hvalues.2
      obtain ⟨v', hadmits', hmore'⟩ :=
        readAs_member hkeys'.1 hvalues'.1 hs' (delimited_tail ht hw (by decide) _) hmembers
      obtain ⟨rfl, hrest⟩ := ih hkeys' hvalues' hs' ht hmembers v' hadmits' hmore'
      exact ⟨rfl, .cons ⟨rfl, hadmits⟩ hrest⟩
    · cases hclose

theorem Numeral.literal {text : Text} (h : Numeral text) : Literal text := by
  obtain ⟨_, fraction, exponent, ⟨sign, whole, hsign, hwhole, rfl⟩, hfraction, hexponent, rfl⟩ := h
  have hliteral := literal_of_parts hsign hwhole hfraction hexponent
  simpa using hliteral

theorem Integer.literal {text : Text} (h : Integer text) : Literal text :=
    (numeral_of_integer h).literal

/-- No accepted text starts with white space or a closing bracket. -/
theorem opens_of_accepts (hfloats : floats.Lawful) {shape : Shape F} (hwide : shape.wide = false)
    {text : Text} (h : shape.Accepts floats text) : Opens text := by
  cases shape with
  | any => cases hwide
  | anyObject => cases hwide
  | choice c cs =>
    rw [Shape.Accepts] at h
    obtain ⟨v, -, rfl⟩ := h
    exact opens_write hfloats v
  | string =>
    rw [Shape.Accepts] at h
    obtain ⟨s, -, rfl⟩ := h
    exact opens_bracket (by decide) (by decide) _
  | integer =>
    rw [Shape.Accepts] at h
    exact h.literal.opens
  | number =>
    rw [Shape.Accepts] at h
    exact h.literal.opens
  | boolean =>
    rw [Shape.Accepts] at h
    rcases h with rfl | rfl
    · exact opens_bracket (by decide) (by decide) _
    · exact opens_bracket (by decide) (by decide) _
  | null =>
    rw [Shape.Accepts] at h
    subst h
    exact opens_bracket (by decide) (by decide) _
  | array item =>
    rw [Shape.Accepts] at h
    obtain ⟨n, w, s, w', -, -, -, rfl⟩ := h
    exact opens_bracket (by decide) (by decide) _
  | object fields =>
    obtain ⟨chosen, -, w, s, w', -, -, -, rfl⟩ := (accepts_object floats).mp h
    exact opens_bracket (by decide) (by decide) _

theorem readAs_of_reads {P : Text → Prop} {Q : Value F → Prop}
    (h : ∀ text, P text → ∃ v depth', Reads floats depth' text v ∧ Q v) :
    ReadAs floats depth P Q := by
  intro text rest v rest' htext hrest hgives
  obtain ⟨w, depth', hread, hQ⟩ := h text htext
  -- the two depths are raised to one
  have hsame := (hgives.mono (le_max_left depth depth')).unique
    ((hread rest hrest).mono (le_max_right depth depth'))
  cases hsame
  exact ⟨rfl, hQ⟩

theorem readAs_literals {P : Text → Prop} (h : ∀ text, P text → Literal text) :
    ReadAs floats depth P fun v =>
      ∃ literal n, P literal ∧ readNumber floats literal = some n ∧ v = .num n := by
  intro text rest v rest' htext hrest hgives
  obtain ⟨n, hn, heq⟩ := (gives_literal (h text htext) hrest).mp hgives
  cases heq
  exact ⟨rfl, text, n, htext, hn, rfl⟩

theorem readAs_quoted : ReadAs floats depth Quoted fun v => ∃ s, v = .str s := by
  rintro text rest v rest' ⟨s, hs, rfl⟩ - hgives
  rw [List.cons_append, List.append_assoc] at hgives
  have hread := (gives_scalar (by decide) (by decide) (by decide)).mp hgives
  rw [readScalar, Option.map_eq_some_iff] at hread
  obtain ⟨⟨made, rest₁⟩, hstring, heq⟩ := hread
  cases heq
  exact ⟨hs.readString_rest hstring, made, rfl⟩

/-- What is read between brackets, when there is nothing between them. -/
theorem gives_arr_nil {w rest rest' : Text} (hw : Blank w) {v : Value F}
    (h : Gives floats depth ('[' :: (w ++ ']' :: rest)) (v, rest')) :
    rest' = rest ∧ v = .arr [] := by
  obtain ⟨-, ⟨rest₁, hclose, heq⟩ | ⟨vs, rest₁, hitems, -⟩⟩ := gives_arr.mp h
  · rw [skipWs_blank_cons hw.isBlank (by decide)] at hclose
    cases hclose
    cases heq
    exact ⟨rfl, rfl⟩
  · rw [← givesItems_skipWs, skipWs_blank_cons hw.isBlank (by decide)] at hitems
    exact absurd hitems not_givesItems_close

theorem readAs_array {P : Text → Prop} {Q : Value F → Prop} (hopens : ∀ text, P text → Opens text)
    (hP : ReadAs floats (depth - 1) P Q) :
    ReadAs floats depth (fun text => ∃ n, Between '[' ']' (List.replicate n P) text)
      fun v => ∃ vs, v = .arr vs ∧ ∀ w ∈ vs, Q w := by
  rintro _ rest v rest' ⟨n, w, s, w', hw, hs, hw', rfl⟩ - hgives
  cases n with
  | zero =>
    cases hs
    have hgives' : Gives floats depth ('[' :: (w ++ w' ++ ']' :: rest)) (v, rest') := by
      simpa using hgives
    obtain ⟨rfl, rfl⟩ := gives_arr_nil (hw.append hw') hgives'
    exact ⟨rfl, [], rfl, by simp⟩
  | succ n =>
    obtain ⟨s, t, hs, ht, rfl⟩ := hs
    have hgives' :
      Gives floats depth ('[' :: (w ++ (s ++ (t ++ (w' ++ ']' :: rest))))) (v, rest') := by
      simpa using hgives
    obtain ⟨-, ⟨rest₁, hclose, -⟩ | ⟨vs, rest₁, hitems, heq⟩⟩ := gives_arr.mp hgives'
    · -- an item does not start like the end
      obtain ⟨c, cs, rfl, hws, hc⟩ := hopens s hs
      rw [List.cons_append, skipWs_blank_cons hw.isBlank hws] at hclose
      exact absurd (List.head_eq_of_cons_eq hclose) hc
    · cases heq
      rw [← givesItems_skipWs, skipWs_append hw.isBlank, givesItems_skipWs] at hitems
      obtain ⟨rfl, hvs⟩ := readAs_items hP hs ht hw' hitems
      exact ⟨rfl, vs, rfl, hvs⟩

theorem gives_obj_nil {w rest rest' : Text} (hw : Blank w) {v : Value F}
    (h : Gives floats depth ('\x7b' :: (w ++ '\x7d' :: rest)) (v, rest')) :
    rest' = rest ∧ v = .obj [] := by
  obtain ⟨-, ⟨rest₁, hclose, heq⟩ | ⟨members, rest₁, hmembers, -⟩⟩ := gives_obj.mp h
  · rw [skipWs_blank_cons hw.isBlank (by decide)] at hclose
    cases hclose
    cases heq
    exact ⟨rfl, rfl⟩
  · obtain ⟨rest₂, key, rest₃, rest₄, v', rest₅, hquote, -⟩ := givesMembers_iff.mp hmembers
    rw [skipWs_blank_cons hw.isBlank (by decide)] at hquote
    cases hquote

theorem readAs_object {fields : List (Field (Shape F))} (hkeys : ∀ f ∈ fields, Bare f.key)
    (hvalues : ∀ f ∈ fields,
      ReadAs floats (depth - 1) (f.value.Accepts floats) (f.value.Admits floats)) :
    ReadAs floats depth ((Shape.object fields).Accepts floats)
    ((Shape.object fields).Admits floats) := by
  intro text rest v rest' haccepts hrest hgives
  obtain ⟨chosen, hchosen, w, s, w', hw, hs, hw', rfl⟩ := (accepts_object floats).mp haccepts
  rw [admits_object]
  cases chosen with
  | nil =>
    cases hs
    have hgives' : Gives floats depth ('\x7b' :: (w ++ w' ++ '\x7d' :: rest)) (v, rest') := by
      simpa using hgives
    obtain ⟨rfl, rfl⟩ := gives_obj_nil (hw.append hw') hgives'
    exact ⟨rfl, [], [], hchosen, .nil, rfl⟩
  | cons field chosen =>
    obtain ⟨s, t, hs, ht, rfl⟩ := hs
    have hgives' : Gives floats depth
        ('\x7b' :: (w ++ (s ++ (t ++ (w' ++ '\x7d' :: rest))))) (v, rest') := by
      simpa using hgives
    obtain ⟨-, ⟨rest₁, hclose, -⟩ | ⟨members, rest₁, hmembers, heq⟩⟩ := gives_obj.mp hgives'
    · obtain ⟨w₁, w₂, text, -, -, -, rfl⟩ := hs
      rw [List.cons_append, skipWs_blank_cons hw.isBlank (by decide)] at hclose
      cases hclose
    · cases heq
      rw [← givesMembers_skipWs, skipWs_append hw.isBlank, givesMembers_skipWs] at hmembers
      obtain ⟨rfl, hfills⟩ := readAs_members (fun f hf => hkeys f (hchosen.subset hf))
        (fun f hf => hvalues f (hchosen.subset hf)) hs ht hw' hmembers
      exact ⟨rfl, _, members, hchosen, hfills, rfl⟩

theorem wide_of_mem {fields : List (Field (Shape F))} (h : (Shape.object fields).wide = false)
    {field : Field (Shape F)} (hfield : field ∈ fields) : field.value.wide = false := by
  rw [Shape.wide, wideFields_eq_any, List.any_eq_false] at h
  exact Bool.eq_false_iff.mpr (h field hfield)

/-- **What is read of an accepted text** is a value of the shape, and the whole
    text is read. -/
theorem readAs_admits (hfloats : floats.Lawful) {shape : Shape F} (hwide : shape.wide = false)
    (hnames : ∀ name ∈ shape.names, Bare name) {depth : Nat} :
    ReadAs floats depth (shape.Accepts floats) (shape.Admits floats) := by
  induction shape generalizing depth with
  | any => cases hwide
  | anyObject => cases hwide
  | choice c cs =>
    refine readAs_of_reads fun text htext => ?_
    rw [Shape.Accepts] at htext
    obtain ⟨v, hv, rfl⟩ := htext
    refine ⟨v.normal, _, reads_write hfloats v _ (Nat.lt_succ_self _), ?_⟩
    rw [Shape.Admits]
    exact ⟨v, hv, rfl⟩
  | string =>
    intro text rest v rest' htext hrest hgives
    rw [Shape.Accepts] at htext
    rw [Shape.Admits]
    exact readAs_quoted text rest v rest' htext hrest hgives
  | integer =>
    intro text rest v rest' htext hrest hgives
    rw [Shape.Accepts] at htext
    rw [Shape.Admits]
    exact readAs_literals (fun _ => Integer.literal) text rest v rest' htext hrest hgives
  | number =>
    intro text rest v rest' htext hrest hgives
    rw [Shape.Accepts] at htext
    rw [Shape.Admits]
    exact readAs_literals (fun _ => Numeral.literal) text rest v rest' htext hrest hgives
  | boolean =>
    refine readAs_of_reads fun text htext => ?_
    rw [Shape.Accepts] at htext
    rcases htext with rfl | rfl
    · exact ⟨_, 0, reads_bool true, by rw [Shape.Admits]; exact ⟨true, rfl⟩⟩
    · exact ⟨_, 0, reads_bool false, by rw [Shape.Admits]; exact ⟨false, rfl⟩⟩
  | null =>
    refine readAs_of_reads fun text htext => ?_
    rw [Shape.Accepts] at htext
    subst htext
    exact ⟨_, 0, reads_null, by rw [Shape.Admits]⟩
  | array item ih =>
    rw [Shape.wide] at hwide
    rw [Shape.names] at hnames
    intro text rest v rest' htext hrest hgives
    rw [Shape.Accepts] at htext
    rw [Shape.Admits]
    exact readAs_array (fun _ => opens_of_accepts hfloats hwide) (ih hwide hnames) text rest v rest'
      htext hrest hgives
  | object fields ih =>
    rw [Shape.names] at hnames
    refine readAs_object (fun f hf => hnames _ (mem_fieldNames hf).1) fun f hf => ?_
    exact ih f hf (wide_of_mem hwide hf) fun name hname =>
      hnames name ((mem_fieldNames hf).2 name hname)

/-! ### Every value has a text -/

theorem Reads.mono {text : Text} {v : Value F} {depth' : Nat} (h : Reads floats depth text v)
    (hle : depth ≤ depth') : Reads floats depth' text v :=
  fun rest hrest => (h rest hrest).mono hle

/-- The value is read of a text of the language, with this depth. -/
def WrittenIn (floats : Floats F) (P : Text → Prop) (depth : Nat) (v : Value F) : Prop :=
  ∃ text, P text ∧ Reads floats depth text v

theorem WrittenIn.mono {P : Text → Prop} {v : Value F} {depth' : Nat}
    (h : WrittenIn floats P depth v) (hle : depth ≤ depth') : WrittenIn floats P depth' v := by
  obtain ⟨text, htext, hread⟩ := h
  exact ⟨text, htext, Reads.mono hread hle⟩

/-- One depth for all the items. -/
theorem exists_depth_items {P : Text → Prop} {vs : List (Value F)}
    (h : ∀ v ∈ vs, ∃ depth, WrittenIn floats P depth v) :
    ∃ depth, ∀ v ∈ vs, WrittenIn floats P depth v := by
  induction vs with
  | nil => exact ⟨0, by simp⟩
  | cons v vs ih =>
    rw [List.forall_mem_cons] at h
    obtain ⟨depth, hv⟩ := h.1
    obtain ⟨depth', hvs⟩ := ih h.2
    refine ⟨max depth depth', List.forall_mem_cons.mpr ⟨hv.mono (le_max_left _ _), ?_⟩⟩
    exact fun w hw => (hvs w hw).mono (le_max_right _ _)

theorem exists_items_text {P : Text → Prop} {v : Value F} {vs : List (Value F)}
    (h : ∀ w ∈ v :: vs, WrittenIn floats P depth w) :
    ∃ s t, P s ∧ Tail (List.replicate vs.length P) t ∧
      ReadsItems floats depth (s ++ (t ++ [']'])) (v :: vs) := by
  induction vs generalizing v with
  | nil =>
    obtain ⟨s, hs, hread⟩ := h v List.mem_cons_self
    exact ⟨s, [], hs, rfl, .last hread isBlank_nil⟩
  | cons w vs ih =>
    rw [List.forall_mem_cons] at h
    obtain ⟨s, hs, hread⟩ := h.1
    obtain ⟨s', t, hs', ht, hitems⟩ := ih h.2
    refine ⟨s, ',' :: (s' ++ t), hs, tail_of_joined ⟨s', t, hs', ht, rfl⟩, ?_⟩
    have hmore := ReadsItems.more hread isBlank_nil isBlank_nil hitems
    simpa using hmore

theorem written_array {P : Text → Prop} {vs : List (Value F)}
    (h : ∀ v ∈ vs, ∃ depth, WrittenIn floats P depth v) :
    ∃ depth, WrittenIn floats (fun text => ∃ n, Between '[' ']' (List.replicate n P) text) depth
      (.arr vs) := by
  obtain ⟨depth, hvs⟩ := exists_depth_items h
  refine ⟨depth + 2, ?_⟩
  cases vs with
  | nil => exact ⟨_, ⟨0, between_of_joined rfl⟩, reads_arr_nil isBlank_nil (by omega)⟩
  | cons v vs =>
    have hmono : ∀ w ∈ v :: vs, WrittenIn floats P (depth + 2 - 1) w :=
      fun w hw => (hvs w hw).mono (by omega)
    obtain ⟨s, t, hs, ht, hitems⟩ := exists_items_text hmono
    refine ⟨_, ⟨vs.length + 1, between_of_joined ⟨s, t, hs, ht, rfl⟩⟩, ?_⟩
    have hread := reads_arr isBlank_nil (by omega) hitems
    simpa using hread

/-- A member is read of a text of the field. -/
def WrittenAs (floats : Floats F) (depth : Nat) (field : Field (Shape F))
    (member : Text × Value F) :
    Prop :=
  member.1 = field.key ∧ WrittenIn floats (field.value.Accepts floats) depth member.2

/-- One depth for all the members. -/
theorem exists_depth_members {fields : List (Field (Shape F))} {members : List (Text × Value F)}
    (h : List.Forall₂
    (fun field member => ∃ depth, WrittenAs floats depth field member) fields members) :
    ∃ depth, List.Forall₂ (WrittenAs floats depth) fields members := by
  induction h with
  | nil => exact ⟨0, .nil⟩
  | cons hfirst _ ih =>
    obtain ⟨depth, hkey, hwritten⟩ := hfirst
    obtain ⟨depth', hrest⟩ := ih
    refine ⟨max depth depth', .cons ⟨hkey, hwritten.mono (le_max_left _ _)⟩ (hrest.imp ?_)⟩
    exact fun field member h => ⟨h.1, h.2.mono (le_max_right _ _)⟩

/-- A name that stands for itself and holds no control character. -/
def Plainly (key : Text) : Prop := ∀ c ∈ key, c ≠ '"' ∧ c ≠ '\\' ∧ 32 ≤ c.toNat

theorem exists_members_text {field : Field (Shape F)} {fields : List (Field (Shape F))}
    {members : List (Text × Value F)} (hkeys : ∀ f ∈ field :: fields, Plainly f.key)
    (h : List.Forall₂ (WrittenAs floats depth) (field :: fields) members) :
    ∃ s t, field.Accepts floats s ∧ Tail (fields.map (Field.Accepts floats)) t ∧
      ReadsMembers floats depth (s ++ (t ++ ['\x7d'])) members := by
  induction fields generalizing field members with
  | nil =>
    obtain ⟨⟨key, v⟩, _, ⟨hkey, text, htext, hread⟩, hnil, rfl⟩ := List.forall₂_cons_left_iff.mp h
    cases List.forall₂_nil_left_iff.mp hnil
    cases hkey
    have hname := readsString_plain (hkeys field List.mem_cons_self)
    refine ⟨_, [], ⟨[], [], text, blank_nil, blank_nil, htext, rfl⟩, rfl, ?_⟩
    have hlast := ReadsMembers.last hname isBlank_nil isBlank_nil hread isBlank_nil
    simpa using hlast
  | cons next fields ih =>
    obtain ⟨⟨key, v⟩, members, ⟨hkey, text, htext, hread⟩, hrest, rfl⟩ :=
      List.forall₂_cons_left_iff.mp h
    cases hkey
    have hname := readsString_plain (hkeys field List.mem_cons_self)
    obtain ⟨s, t, hs, ht, hmembers⟩ := ih (fun f hf => hkeys f (List.mem_cons_of_mem _ hf)) hrest
    refine ⟨_, ',' :: (s ++ t), ⟨[], [], text, blank_nil, blank_nil, htext, rfl⟩,
      tail_of_joined ⟨s, t, hs, ht, rfl⟩, ?_⟩
    have hmore :=
      ReadsMembers.more hname isBlank_nil isBlank_nil hread isBlank_nil isBlank_nil hmembers
    simpa using hmore

theorem written_object {fields chosen : List (Field (Shape F))} {members : List (Text × Value F)}
    (hkeys : ∀ f ∈ fields, Plainly f.key) (hchosen : Selection fields chosen)
    (h : List.Forall₂
    (fun field member => ∃ depth, WrittenAs floats depth field member) chosen members) :
    ∃ depth, WrittenIn floats ((Shape.object fields).Accepts floats) depth
      (.obj (collectMembers members)) := by
  obtain ⟨depth, hmembers⟩ := exists_depth_members h
  refine ⟨depth + 2, ?_⟩
  cases chosen with
  | nil =>
    cases hmembers
    exact ⟨_, (accepts_object floats).mpr ⟨[], hchosen, between_of_joined rfl⟩,
      reads_obj_nil isBlank_nil (by omega)⟩
  | cons field chosen =>
    have hmono : List.Forall₂ (WrittenAs floats (depth + 2 - 1)) (field :: chosen) members :=
      hmembers.imp fun f m hf => ⟨hf.1, hf.2.mono (by omega)⟩
    obtain ⟨s, t, hs, ht, hread⟩ :=
      exists_members_text (fun f hf => hkeys f (hchosen.subset hf)) hmono
    refine ⟨_, (accepts_object floats).mpr ⟨_, hchosen, between_of_joined ⟨s, t, hs, ht, rfl⟩⟩, ?_⟩
    have hobj := reads_obj isBlank_nil (by omega) hread
    simpa using hobj

/-- **Every value of a shape** is read of some accepted text. -/
theorem written_of_admits (hfloats : floats.Lawful) {shape : Shape F} (hwide : shape.wide = false)
    (hnames : ∀ name ∈ shape.names, Plainly name) {v : Value F} (h : shape.Admits floats v) :
    ∃ depth, WrittenIn floats (shape.Accepts floats) depth v := by
  induction shape generalizing v with
  | any => cases hwide
  | anyObject => cases hwide
  | choice c cs =>
    rw [Shape.Admits] at h
    obtain ⟨w, hw, rfl⟩ := h
    refine ⟨_, write floats w, ?_, reads_write hfloats w _ (Nat.lt_succ_self _)⟩
    rw [Shape.Accepts]
    exact ⟨w, hw, rfl⟩
  | string =>
    rw [Shape.Admits] at h
    obtain ⟨s, rfl⟩ := h
    refine ⟨0, '"' :: writeString s, ?_, reads_str (readsString_writeString s)⟩
    rw [Shape.Accepts]
    exact quoted_writeString s
  | integer =>
    rw [Shape.Admits] at h
    obtain ⟨literal, n, hliteral, hread, rfl⟩ := h
    refine ⟨0, literal, ?_, reads_num hliteral.literal hread⟩
    rw [Shape.Accepts]
    exact hliteral
  | number =>
    rw [Shape.Admits] at h
    obtain ⟨literal, n, hliteral, hread, rfl⟩ := h
    refine ⟨0, literal, ?_, reads_num hliteral.literal hread⟩
    rw [Shape.Accepts]
    exact hliteral
  | boolean =>
    rw [Shape.Admits] at h
    obtain ⟨b, rfl⟩ := h
    refine ⟨0, write floats (.bool b), ?_, reads_bool b⟩
    rw [Shape.Accepts]
    cases b with
    | true => exact Or.inl rfl
    | false => exact Or.inr rfl
  | null =>
    rw [Shape.Admits] at h
    subst h
    refine ⟨0, "null".toList, ?_, reads_null⟩
    rw [Shape.Accepts]
  | array item ih =>
    rw [Shape.wide] at hwide
    rw [Shape.names] at hnames
    rw [Shape.Admits] at h
    obtain ⟨vs, rfl, hvs⟩ := h
    obtain ⟨depth, text, htext, hread⟩ := written_array fun w hw => ih hwide hnames (hvs w hw)
    refine ⟨depth, text, ?_, hread⟩
    rw [Shape.Accepts]
    exact htext
  | object fields ih =>
    rw [Shape.names] at hnames
    obtain ⟨chosen, members, hchosen, hfills, rfl⟩ := (admits_object floats).mp h
    refine written_object (fun f hf => hnames _ (mem_fieldNames hf).1) hchosen ?_
    refine (List.forall₂_iff_zip.mpr ⟨hfills.length_eq, ?_⟩)
    intro field member hmem
    have hfield := hchosen.subset (List.of_mem_zip hmem).1
    have hadmits := (List.forall₂_iff_zip.mp hfills).2 hmem
    obtain ⟨depth, hwritten⟩ := ih field hfield (wide_of_mem hwide hfield)
      (fun name hname => hnames name ((mem_fieldNames hfield).2 name hname)) hadmits.2
    exact ⟨depth, hadmits.1, hwritten⟩

end AiDaemon.Grammar
