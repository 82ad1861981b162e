import AiDaemon.JsonWrite

/-!
# Texts that are refused

`Fails` is the other half of `Reads`: the text is refused whatever follows it.
A part that fails makes the array or the object around it fail, as long as the
parts before it are read.
-/

namespace AiDaemon.Json

variable {F : Type} {floats : Floats F} {depth : Nat}

/-- The text is refused, whatever follows it. -/
def Fails (floats : Floats F) (depth : Nat) (text : Text) : Prop :=
  ∀ rest, Delimited rest → ∀ r, ¬ Gives floats depth (text ++ rest) r

theorem fromStr_eq_none {text : Text} (h : Fails floats recursionLimit text) :
    fromStr floats text = none := by
  rw [Option.eq_none_iff_forall_ne_some]
  intro v hread
  obtain ⟨rest, hgives, -⟩ := fromStr_eq_some.mp hread
  refine h [] delimited_nil (v, rest) ?_
  rw [List.append_nil]
  exact hgives

/-! ### Brackets -/

theorem fails_shallow_arr (hdepth : ¬ 1 < depth) (text : Text) :
    Fails floats depth ('[' :: text) := by
  rintro rest - r hgives
  exact hdepth (gives_arr.mp hgives).1

theorem fails_shallow_obj (hdepth : ¬ 1 < depth) (text : Text) :
    Fails floats depth ('\x7b' :: text) := by
  rintro rest - r hgives
  exact hdepth (gives_obj.mp hgives).1

/-- A text that can be the first item of an array. -/
def Opens (text : Text) : Prop := ∃ c rest, text = c :: rest ∧ isWs c = false ∧ c ≠ ']'

/-- An array fails with its first item. -/
theorem fails_item {text : Text} (hopens : Opens text) (h : Fails floats (depth - 1) text) :
    Fails floats depth ('[' :: (text ++ [']'])) := by
  rintro rest - r hgives
  obtain ⟨c, text, rfl, hws, hc⟩ := hopens
  rw [List.cons_append, List.append_assoc] at hgives
  obtain ⟨-, ⟨rest', hclose, -⟩ | ⟨vs, rest', hitems, -⟩⟩ := gives_arr.mp hgives
  · rw [List.cons_append, skipWs_cons hws] at hclose
    exact hc (List.head_eq_of_cons_eq hclose)
  · obtain ⟨v, rest'', hv, -⟩ := givesItems_iff.mp hitems
    exact h _ (delimited_cons (by decide) _) _ hv

/-! ### Members -/

section

variable {body key more w w' : Text}

/-- Members whose first key is refused. -/
theorem not_givesMembers_key (h : readString none more = none) {r : List (Text × Value F) × Text} :
    ¬ GivesMembers floats depth ('"' :: more) r := by
  rw [givesMembers_iff]
  rintro ⟨rest, key, rest₁, rest₂, v, rest₃, hquote, hkey, -⟩
  rw [skipWs_cons (by decide)] at hquote
  cases hquote
  rw [h] at hkey
  cases hkey

/-- What is read of a first member: its key, and then a value behind the colon. -/
theorem GivesMembers.first (hkey : ReadsString body key) (hw : IsBlank w) (hw' : IsBlank w')
    {r : List (Text × Value F) × Text}
    (h : GivesMembers floats depth ('"' :: (body ++ (w ++ ':' :: (w' ++ more)))) r) :
    ∃ v rest, Gives floats depth more (v, rest) ∧
      ((∃ rest' members rest'', skipWs rest = ',' :: rest' ∧
          GivesMembers floats depth rest' (members, rest'') ∧ r = ((key, v) :: members, rest'')) ∨
        ∃ rest', skipWs rest = '\x7d' :: rest' ∧ r = ([(key, v)], rest')) := by
  obtain ⟨rest, key', rest₁, rest₂, v, rest₃, hquote, hkey', hcolon, hv, hrest⟩ :=
    givesMembers_iff.mp h
  rw [skipWs_cons (by decide)] at hquote
  cases hquote
  rw [hkey] at hkey'
  cases hkey'
  rw [skipWs_blank_cons hw (by decide)] at hcolon
  cases hcolon
  exact ⟨v, rest₃, (gives_ws hw').mp hv, hrest⟩

/-- Members whose first value is refused. -/
theorem not_givesMembers_value (hkey : ReadsString body key) (hw : IsBlank w) (hw' : IsBlank w')
    (h : ∀ r, ¬ Gives floats depth more r) {r : List (Text × Value F) × Text} :
    ¬ GivesMembers floats depth ('"' :: (body ++ (w ++ ':' :: (w' ++ more)))) r := by
  intro hgives
  obtain ⟨v, rest, hv, -⟩ := hgives.first hkey hw hw'
  exact h _ hv

/-- Members that are refused behind a first one that is read. -/
theorem not_givesMembers_more {text : Text} {v : Value F} (hkey : ReadsString body key)
    (hw : IsBlank w) (hw' : IsBlank w') (hread : Reads floats depth text v)
    (h : ∀ r, ¬ GivesMembers floats depth more r) {r : List (Text × Value F) × Text} :
    ¬ GivesMembers floats depth
      ('"' :: (body ++ (w ++ ':' :: (w' ++ (text ++ ',' :: more))))) r := by
  intro hgives
  obtain ⟨v', rest, hv, hrest⟩ := hgives.first hkey hw hw'
  have hsame := hv.unique (hread _ (delimited_cons (by decide) _))
  cases hsame
  rw [skipWs_cons (by decide)] at hrest
  rcases hrest with ⟨rest', members, rest'', hcomma, hmembers, -⟩ | ⟨rest', hclose, -⟩
  · cases hcomma
    exact h _ hmembers
  · cases hclose

end

/-- An object fails with its members. -/
theorem fails_members {text : Text} (hquote : text.head? = some '"')
    (h : ∀ rest r, ¬ GivesMembers floats (depth - 1) (text ++ '\x7d' :: rest) r) :
    Fails floats depth ('\x7b' :: (text ++ ['\x7d'])) := by
  rintro rest - r hgives
  rw [List.cons_append, List.append_assoc] at hgives
  obtain ⟨-, ⟨rest', hclose, -⟩ | ⟨members, rest', hmembers, -⟩⟩ := gives_obj.mp hgives
  · cases text with
    | nil => cases hquote
    | cons c text =>
      cases hquote
      rw [List.cons_append, skipWs_cons (by decide)] at hclose
      cases hclose
  · exact h _ _ hmembers

/-! ### Values that nest too deeply -/

theorem Literal.opens {literal : Text} (h : Literal literal) : Opens literal := by
  obtain ⟨c, cs, rfl, hc⟩ := h.head
  refine ⟨c, cs, rfl, ?_⟩
  rcases hc with rfl | hdigit
  · exact ⟨by decide, by decide⟩
  · constructor
    · rw [← Bool.not_eq_true]
      intro hws
      rcases isWs_cases hws with rfl | rfl | rfl | rfl
      all_goals cases hdigit
    · rintro rfl
      cases hdigit

theorem opens_write (hfloats : floats.Lawful) (v : Value F) : Opens (write floats v) := by
  cases v with
  | null => exact ⟨_, _, rfl, by decide, by decide⟩
  | bool b =>
    cases b with
    | true => exact ⟨_, _, rfl, by decide, by decide⟩
    | false => exact ⟨_, _, rfl, by decide, by decide⟩
  | num n =>
    cases n with
    | posInt n => exact (literal_ofNat _).opens
    | negInt n => exact (literal_neg _).opens
    | float f => exact (hfloats.literal f).opens
  | str s => exact ⟨_, _, rfl, by decide, by decide⟩
  | arr vs =>
    cases vs with
    | nil => exact ⟨_, _, rfl, by decide, by decide⟩
    | cons v vs => exact ⟨_, _, rfl, by decide, by decide⟩
  | obj members =>
    cases members with
    | nil => exact ⟨_, _, rfl, by decide, by decide⟩
    | cons member members => exact ⟨_, _, rfl, by decide, by decide⟩

theorem delimited_writeItems (vs : List (Value F)) (rest : Text) :
    Delimited (writeItems floats vs ++ rest) := by
  cases vs with
  | nil => exact delimited_cons (by decide) _
  | cons v vs => exact delimited_cons (by decide) _

theorem delimited_writeMembers (members : List (Text × Value F)) (rest : Text) :
    Delimited (writeMembers floats members ++ rest) := by
  cases members with
  | nil => exact delimited_cons (by decide) _
  | cons member members => exact delimited_cons (by decide) _

mutual

/-- What is written for a value is refused when the value nests too deeply. -/
theorem fails_write (hfloats : floats.Lawful) :
    ∀ (v : Value F) (depth : Nat), 0 < depth → ¬ v.nesting < depth →
    Fails floats depth (write floats v)
  | .null, _, hpos, h => absurd hpos h
  | .bool _, _, hpos, h => absurd hpos h
  | .num _, _, hpos, h => absurd hpos h
  | .str _, _, hpos, h => absurd hpos h
  | .arr [], _, _, h => fails_shallow_arr h _
  | .arr (v :: vs), depth, hpos, h => by
    by_cases hdepth : 1 < depth
    · rintro rest - r hgives
      simp only [Value.nesting, nestingItems] at h
      obtain ⟨-, ⟨rest', hclose, -⟩ | ⟨vs', rest', hitems, -⟩⟩ := gives_arr.mp hgives
      · obtain ⟨c, cs, hopens, hws, hc⟩ := opens_write hfloats v
        rw [hopens] at hclose
        have hskip : skipWs (c :: (cs ++ writeItems floats vs ++ rest)) = ']' :: rest' := hclose
        rw [skipWs_cons hws] at hskip
        exact hc (List.head_eq_of_cons_eq hskip)
      · refine not_givesItems_write hfloats v vs (depth - 1) (by omega) (by omega) rest (vs',
          rest') ?_
        rw [← List.append_assoc]
        exact hitems
    · exact fails_shallow_arr hdepth _
  | .obj [], _, _, h => fails_shallow_obj h _
  | .obj ((key, v) :: members), depth, hpos, h => by
    by_cases hdepth : 1 < depth
    · rintro rest - r hgives
      simp only [Value.nesting, nestingMembers] at h
      obtain ⟨-, ⟨rest', hclose, -⟩ | ⟨members', rest', hmembers, -⟩⟩ := gives_obj.mp hgives
      · cases hclose
      · refine not_givesMembers_write hfloats key v members (depth - 1) (by omega) (by omega) rest
          (members', rest') ?_
        simpa using hmembers
    · exact fails_shallow_obj hdepth _
termination_by v => sizeOf v

theorem not_givesItems_write (hfloats : floats.Lawful) :
    ∀ (v : Value F) (vs : List (Value F)) (depth : Nat), 0 < depth →
      ¬ max v.nesting (nestingItems vs) < depth → ∀ rest r,
      ¬ GivesItems floats depth (write floats v ++ (writeItems floats vs ++ rest)) r
  | v, [], depth, hpos, h, rest, r => by
    intro hitems
    simp only [nestingItems] at h
    obtain ⟨v', rest', hv, -⟩ := givesItems_iff.mp hitems
    exact fails_write hfloats v depth hpos (by omega) _ (delimited_writeItems [] rest) _ hv
  | v, w :: ws, depth, hpos, h, rest, r => by
    intro hitems
    simp only [nestingItems] at h
    obtain ⟨v', rest', hv, hrest⟩ := givesItems_iff.mp hitems
    have hdelimited : Delimited (writeItems floats (w :: ws) ++ rest) := delimited_writeItems _ _
    by_cases hfits : v.nesting < depth
    · -- the first is read, and one behind it is refused
      cases hv.unique (reads_write hfloats v depth hfits _ hdelimited)
      rw [writeItems, List.cons_append, skipWs_cons (by decide), List.append_assoc] at hrest
      rcases hrest with ⟨rest', vs', rest'', hcomma, hitems', -⟩ | ⟨rest', hclose, -⟩
      · cases hcomma
        exact not_givesItems_write hfloats w ws depth hpos (by omega) _ _ hitems'
      · cases hclose
    · exact fails_write hfloats v depth hpos hfits _ hdelimited _ hv
termination_by v vs => sizeOf v + sizeOf vs

theorem not_givesMembers_write (hfloats : floats.Lawful) :
    ∀ (key : Text) (v : Value F) (members : List (Text × Value F)) (depth : Nat), 0 < depth →
      ¬ max v.nesting (nestingMembers members) < depth → ∀ rest r,
      ¬ GivesMembers floats depth
        ('"' ::
          (writeString key ++ ':' :: (write floats v ++ (writeMembers floats members ++ rest)))) r
  | key, v, [], depth, hpos, h, rest, r => by
    intro hgives
    simp only [nestingMembers] at h
    obtain ⟨v', rest', hv, -⟩ :=
      hgives.first (readsString_writeString key) isBlank_nil isBlank_nil
    exact fails_write hfloats v depth hpos (by omega) _ (delimited_writeMembers [] rest) _ hv
  | key, v, (key', w) :: members, depth, hpos, h, rest, r => by
    intro hgives
    simp only [nestingMembers] at h
    obtain ⟨v', rest', hv, hrest⟩ :=
      hgives.first (readsString_writeString key) isBlank_nil isBlank_nil
    have hdelimited : Delimited (writeMembers floats ((key', w) :: members) ++ rest) :=
      delimited_writeMembers _ _
    by_cases hfits : v.nesting < depth
    · cases hv.unique (reads_write hfloats v depth hfits _ hdelimited)
      rw [writeMembers, List.cons_append, skipWs_cons (by decide)] at hrest
      simp only [List.append_assoc, List.cons_append] at hrest
      rcases hrest with ⟨rest', members', rest'', hcomma, hmembers, -⟩ | ⟨rest', hclose, -⟩
      · cases hcomma
        exact not_givesMembers_write hfloats key' w members depth hpos (by omega) _ _ hmembers
      · cases hclose
    · exact fails_write hfloats v depth hpos hfits _ hdelimited _ hv
termination_by _ v members => sizeOf v + sizeOf members

end

/-! ### Names written as they are -/

theorem readString_pending {n : Nat} {c : Char} (hslash : c ≠ '\\') (rest : Text) :
    readString (some n) (c :: rest) = none := by
  by_cases hquote : c = '"'
  · subst hquote
    rfl
  · rw [readString_char hquote hslash, if_neg fun h => absurd h.1 (Option.some_ne_none n)]

theorem readString_control {lead : Option Nat} {c : Char} (hquote : c ≠ '"') (hslash : c ≠ '\\')
    (hcontrol : ¬ 32 ≤ c.toNat) (rest : Text) : readString lead (c :: rest) = none := by
  rw [readString_char hquote hslash, if_neg fun h => hcontrol h.2]

/-- An escape that is none: a letter that stands for nothing, or one where the
    other half of a surrogate is due. -/
theorem readString_badEscape {lead : Option Nat} {c : Char} (hu : c ≠ 'u')
    (h : lead ≠ none ∨ unescape c = none) (rest : Text) :
    readString lead ('\\' :: c :: rest) = none := by
  rw [readString]
  · intro a b c' d tail hc
    exact absurd hc hu
  · intro made hlead hmade
    rcases h with h | h
    · exact h hlead
    · rw [h] at hmade
      cases hmade

/-- A `\u` that does not have four digits. -/
theorem readString_badUnicode {lead : Option Nat} {text : Text}
    (h : ∀ a b c d rest, text = a :: b :: c :: d :: rest → hex4 a b c d = none) :
    readString lead ('\\' :: 'u' :: text) = none := by
  rw [readString.eq_def]
  split
  case h_1 heq => cases heq
  case h_2 heq => cases List.head_eq_of_cons_eq heq
  case h_3 a b c d rest heq =>
    simp only [List.cons.injEq, true_and] at heq
    rw [h a b c d rest heq]
  case h_4 c rest _ heq =>
    simp only [List.cons.injEq, true_and] at heq
    rw [← heq.1]
    split
    · rename_i made hmade
      cases hmade
    · rfl
  case h_5 hescape heq =>
    cases heq
    exact (hescape 'u' text rfl rfl).elim

/-- The digits end with the name. -/
theorem hex4_name {name : Text} {a b c d : Char} {rest rest' : Text}
    (hshort : name.length < 4) (h : name ++ '"' :: rest = a :: b :: c :: d :: rest') :
    hex4 a b c d = none := by
  have hquote : hexDigit '"' = none := by decide
  unfold hex4
  split
  · rename_i ha hb hc hd
    match name, hshort with
    | [], _ =>
      cases h
      rw [hquote] at ha
      cases ha
    | [_], _ =>
      cases h
      rw [hquote] at hb
      cases hb
    | [_, _], _ =>
      cases h
      rw [hquote] at hc
      cases hc
    | [_, _, _], _ =>
      cases h
      rw [hquote] at hd
      cases hd
  · rfl

/-- A name that is read up to the quote behind it, or refused with a line feed
    behind the quote. -/
def NameReads (lead : Option Nat) (name : Text) : Prop :=
  (∃ s, ∀ rest, readString lead (name ++ '"' :: rest) = some (s, rest)) ∨
    ∀ rest, readString lead (name ++ '"' :: '\n' :: rest) = none

/-- What is read in front of a name. -/
theorem NameReads.map {lead lead' : Option Nat} {name name' : Text} {made : Text → Text}
    (h : NameReads lead name)
    (hread : ∀ rest, readString lead' (name' ++ rest) =
      (readString lead (name ++ rest)).map fun (s, rest) => (made s, rest)) :
    NameReads lead' name' := by
  rcases h with ⟨s, hs⟩ | hnone
  · left
    refine ⟨made s, fun rest => ?_⟩
    rw [hread, hs]
    rfl
  · right
    intro rest
    rw [hread, hnone]
    rfl

theorem nameReads_unicode {lead : Option Nat} {a b c d : Char} {name : Text}
    (h : ∀ lead, NameReads lead name) :
    NameReads lead ('\\' :: 'u' :: a :: b :: c :: d :: name) := by
  cases hhex : hex4 a b c d with
  | none =>
    refine Or.inr fun rest => readString_badUnicode fun a' b' c' d' rest' heq => ?_
    cases heq
    exact hhex
  | some n =>
    cases hscalar : scalar lead n with
    | none =>
      have hread : ∀ more, readString lead ('\\' :: 'u' :: a :: b :: c :: d :: more) = none := by
        intro more
        rw [readString, hhex]
        simp only [hscalar]
      exact Or.inr fun rest => hread _
    | some made =>
      cases made with
      | none =>
        have hread : ∀ more, readString lead ('\\' :: 'u' :: a :: b :: c :: d :: more) =
            readString (some n) more := by
          intro more
          rw [readString, hhex]
          simp only [hscalar]
        rcases h (some n) with ⟨s, hs⟩ | hnone
        · exact Or.inl ⟨s, fun rest => (hread _).trans (hs rest)⟩
        · exact Or.inr fun rest => (hread _).trans (hnone rest)
      | some made =>
        have hread : ∀ more, readString lead ('\\' :: 'u' :: a :: b :: c :: d :: more) =
            (readString none more).map fun (s, rest) => (made :: s, rest) := by
          intro more
          rw [readString, hhex]
          simp only [hscalar]
        exact (h none).map fun rest => hread (name ++ rest)

theorem nameReads_escape {lead : Option Nat} {c : Char} (hu : c ≠ 'u') {name : Text}
    (h : NameReads none name) : NameReads lead ('\\' :: c :: name) := by
  cases lead with
  | some n => exact Or.inr fun rest => readString_badEscape hu (Or.inl (by simp)) _
  | none =>
    cases hmade : unescape c with
    | none => exact Or.inr fun rest => readString_badEscape hu (Or.inr hmade) _
    | some made => exact h.map fun rest => readString_escaped hmade (name ++ rest)

theorem nameReads_plain {lead : Option Nat} {c : Char} (hquote : c ≠ '"') (hslash : c ≠ '\\')
    {name : Text} (h : NameReads none name) : NameReads lead (c :: name) := by
  cases lead with
  | some n => exact Or.inr fun rest => readString_pending hslash _
  | none =>
    by_cases hplain : 32 ≤ c.toNat
    · exact h.map fun rest => readString_plain hquote hslash hplain (name ++ rest)
    · exact Or.inr fun rest => readString_control hquote hslash hplain _

/-- A backslash at the end of a name takes the quote behind it. -/
theorem nameReads_backslash (lead : Option Nat) : NameReads lead ['\\'] := by
  right
  intro rest
  cases lead with
  | none =>
    have hread : readString none ('\\' :: '"' :: '\n' :: rest) = _ := readString_escaped rfl _
    rw [readString_control (c := '\n') (by decide) (by decide) (by decide)] at hread
    exact hread
  | some n => exact readString_badEscape (by decide) (Or.inl (by simp)) _

theorem exists_four {name : Text} (h : ¬ name.length < 4) :
    ∃ a b c d tail, name = a :: b :: c :: d :: tail := by
  match name with
  | [] => simp at h
  | [_] => simp at h
  | [_, _] => simp at h
  | [_, _, _] => simp at h
  | a :: b :: c :: d :: tail => exact ⟨a, b, c, d, tail, rfl⟩

/-- **Names without a quote** are read up to their end, or refused there. -/
theorem nameReads (lead : Option Nat) (name : Text)
    (hquote : '"' ∉ name) : NameReads lead name := by
  induction hlen : name.length using Nat.strong_induction_on generalizing lead name with
  | _ n ih =>
    subst hlen
    have hshorter : ∀ lead name', '"' ∉ name' → name'.length < name.length → NameReads lead name' :=
      fun lead name' hquote' hless => ih _ hless lead name' hquote' rfl
    clear ih
    match name, hquote, hshorter with
    | [], _, _ =>
      cases lead with
      | none => exact Or.inl ⟨[], fun rest => rfl⟩
      | some n => exact Or.inr fun rest => readString_pending (by decide) _
    | [c], hquote, hshorter =>
      by_cases hslash : c = '\\'
      · subst hslash
        exact nameReads_backslash lead
      · refine nameReads_plain ?_ hslash (hshorter none [] (by simp) (by simp))
        rintro rfl
        exact hquote List.mem_cons_self
    | c :: d :: name, hquote, hshorter =>
      simp only [List.mem_cons, not_or] at hquote
      by_cases hslash : c = '\\'
      · subst hslash
        by_cases hu : d = 'u'
        · subst hu
          by_cases hshort : name.length < 4
          · exact Or.inr fun rest => readString_badUnicode fun _ _ _ _ _ => hex4_name hshort
          · obtain ⟨a, b, c, d, tail, rfl⟩ := exists_four hshort
            refine nameReads_unicode fun lead => hshorter lead tail ?_ (by simp; omega)
            simp only [List.mem_cons, not_or] at hquote
            exact hquote.2.2.2.2.2.2
        · exact nameReads_escape hu
            (hshorter none name hquote.2.2 (by simp only [List.length_cons]; omega))
      · refine nameReads_plain (fun h => hquote.1 h.symm) hslash (hshorter none (d ::
          name) ?_ (by simp))
        simp only [List.mem_cons, not_or]
        exact hquote.2

end AiDaemon.Json
