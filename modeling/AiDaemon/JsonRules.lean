import AiDaemon.JsonFails

/-!
# Induction over what is read

`Rules` has what a property of values, items and members must satisfy, one field
for each way that the reader can go, and `Rules.hold` is the induction.  The first
use is that what stands behind a value does not matter (`gives_append_iff`).
-/

namespace AiDaemon.Json

variable {F : Type} {floats : Floats F}

theorem isBlank_of_skipWs {ws : Text} (h : skipWs ws = []) : IsBlank ws := by
  intro c hc
  exact List.dropWhile_eq_nil_iff.mp h c hc

/-- What is left without its white space, with it. -/
theorem skipWs_eq_cons {text more : Text} {c : Char} (h : skipWs text = c :: more) :
    ∃ ws, IsBlank ws ∧ isWs c = false ∧ text = ws ++ c :: more := by
  have hdrop : text.dropWhile isWs = c :: more := h
  have hhead := List.head?_dropWhile_not isWs text
  rw [hdrop] at hhead
  refine ⟨text.takeWhile isWs, fun d hd => List.mem_takeWhile_imp hd, hhead, ?_⟩
  rw [← hdrop, List.takeWhile_append_dropWhile]

/-! ### The induction -/

/-- Every way that something can be read keeps the properties. -/
structure Rules (floats : Floats F) (V : Nat → Text → Value F → Text → Prop)
    (I : Nat → Text → List (Value F) → Text → Prop)
    (M : Nat → Text → List (Text × Value F) → Text → Prop) : Prop where
  scalar : ∀ {depth text c more v rest}, skipWs text = c :: more → c ≠ '[' → c ≠ '\x7b' →
    readScalar floats (c :: more) = some (v, rest) → V depth text v rest
  emptyArr : ∀ {depth text more rest}, skipWs text = '[' :: more → 1 < depth →
    skipWs more = ']' :: rest → V depth text (.arr []) rest
  arr : ∀ {depth text more vs rest}, skipWs text = '[' :: more → 1 < depth →
    GivesItems floats (depth - 1) more (vs, rest) → I (depth - 1) more vs rest →
    V depth text (.arr vs) rest
  emptyObj : ∀ {depth text more rest}, skipWs text = '\x7b' :: more → 1 < depth →
    skipWs more = '\x7d' :: rest → V depth text (.obj []) rest
  obj : ∀ {depth text more members rest}, skipWs text = '\x7b' :: more → 1 < depth →
    GivesMembers floats (depth - 1) more (members, rest) → M (depth - 1) more members rest →
    V depth text (.obj (collectMembers members)) rest
  lastItem : ∀ {depth text v more rest}, Gives floats depth text (v, more) →
    V depth text v more → skipWs more = ']' :: rest → I depth text [v] rest
  item : ∀ {depth text v more items vs rest}, Gives floats depth text (v, more) →
    V depth text v more → skipWs more = ',' :: items →
    GivesItems floats depth items (vs, rest) → I depth items vs rest → I depth text (v :: vs) rest
  lastMember : ∀ {depth text body key more value v behind rest}, skipWs text = '"' :: body →
    readString none body = some (key, more) → skipWs more = ':' :: value →
    Gives floats depth value (v, behind) → V depth value v behind →
    skipWs behind = '\x7d' :: rest → M depth text [(key, v)] rest
  member : ∀ {depth text body key more value v behind others members rest},
    skipWs text = '"' :: body → readString none body = some (key, more) →
    skipWs more = ':' :: value → Gives floats depth value (v, behind) → V depth value v behind →
    skipWs behind = ',' :: others → GivesMembers floats depth others (members, rest) →
    M depth others members rest → M depth text ((key, v) :: members) rest

section

variable {V : Nat → Text → Value F → Text → Prop} {I : Nat → Text → List (Value F) → Text → Prop}
  {M : Nat → Text → List (Text × Value F) → Text → Prop}

/-- A value, if its items and its members satisfy theirs. -/
theorem Rules.value (h : Rules floats V I M) {depth : Nat} {text : Text} {v : Value F} {rest : Text}
    (hitems : ∀ more vs rest, more.length < text.length →
      GivesItems floats (depth - 1) more (vs, rest) → I (depth - 1) more vs rest)
    (hmembers : ∀ more members rest, more.length < text.length →
      GivesMembers floats (depth - 1) more (members, rest) → M (depth - 1) more members rest)
    (hv : Gives floats depth text (v, rest)) : V depth text v rest := by
  rw [← gives_skipWs] at hv
  cases hskip : skipWs text with
  | nil =>
    rw [hskip] at hv
    obtain ⟨fuel, hread⟩ := hv
    cases fuel <;> cases hread
  | cons c more =>
    have hshort := length_of_skipWs hskip
    rw [hskip] at hv
    obtain ⟨-, -, hws, -⟩ := skipWs_eq_cons hskip
    by_cases harr : c = '['
    · subst harr
      obtain ⟨hdepth, ⟨rest', hclose, heq⟩ | ⟨vs, rest', hvs, heq⟩⟩ := gives_arr.mp hv
      · cases heq
        exact h.emptyArr hskip hdepth hclose
      · cases heq
        exact h.arr hskip hdepth hvs (hitems more vs rest hshort hvs)
    · by_cases hobj : c = '\x7b'
      · subst hobj
        obtain ⟨hdepth, ⟨rest', hclose, heq⟩ | ⟨members, rest', hgives, heq⟩⟩ := gives_obj.mp hv
        · cases heq
          exact h.emptyObj hskip hdepth hclose
        · cases heq
          exact h.obj hskip hdepth hgives (hmembers more members rest hshort hgives)
      · exact h.scalar hskip harr hobj ((gives_scalar hws harr hobj).mp hv)

/-- **Rule induction.** What is read satisfies the properties. -/
theorem Rules.hold (h : Rules floats V I M) :
    (∀ depth text v rest, Gives floats depth text (v, rest) → V depth text v rest) ∧
    (∀ depth text vs rest, GivesItems floats depth text (vs, rest) → I depth text vs rest) ∧
    (∀ depth text members rest, GivesMembers floats depth text (members, rest) →
      M depth text members rest) := by
  have hall : ∀ n, (∀ depth text v rest, text.length = n → Gives floats depth text (v, rest) →
        V depth text v rest) ∧
      (∀ depth text vs rest, text.length = n → GivesItems floats depth text (vs, rest) →
        I depth text vs rest) ∧
      (∀ depth text members rest, text.length = n → GivesMembers floats depth text (members, rest) →
        M depth text members rest) := by
    intro n
    induction n using Nat.strong_induction_on with
    | _ n ih =>
      have hvalue : ∀ depth text v rest, text.length = n → Gives floats depth text (v, rest) →
          V depth text v rest := by
        rintro depth text v rest rfl hv
        refine h.value ?_ ?_ hv
        · exact fun more vs rest hshort => (ih _ hshort).2.1 _ more vs rest rfl
        · exact fun more members rest hshort => (ih _ hshort).2.2 _ more members rest rfl
      refine ⟨hvalue, ?_, ?_⟩
      · rintro depth text vs rest hlength hvs
        obtain ⟨v, more, hv, ⟨items, vs', rest', hcomma, hitems, heq⟩ | ⟨rest', hclose, heq⟩⟩ :=
          givesItems_iff.mp hvs
        · cases heq
          have hless : items.length < n := by
            have hmore := hv.enough.1
            have hitem := length_of_skipWs hcomma
            simp only at hmore
            omega
          exact h.item hv (hvalue _ _ _ _ hlength hv) hcomma hitems
            ((ih _ hless).2.1 _ _ _ _ rfl hitems)
        · cases heq
          exact h.lastItem hv (hvalue _ _ _ _ hlength hv) hclose
      · rintro depth text members rest hlength hmembers
        obtain ⟨body, key, more, value, v, behind, hquote, hkey, hcolon, hv, hrest⟩ :=
          givesMembers_iff.mp hmembers
        have hbody := length_of_skipWs hquote
        have hmore := length_readString hkey
        have hvalueLength := length_of_skipWs hcolon
        have hv' := (ih value.length (by omega)).1 depth value v behind rfl hv
        rcases hrest with ⟨others, members', rest', hcomma, hothers, heq⟩ | ⟨rest', hclose, heq⟩
        · cases heq
          have hbehind := hv.enough.1
          have hless := length_of_skipWs hcomma
          simp only at hbehind
          exact h.member hquote hkey hcolon hv hv' hcomma hothers
            ((ih others.length (by omega)).2.2 _ _ _ _ rfl hothers)
        · cases heq
          exact h.lastMember hquote hkey hcolon hv hv' hclose
  exact ⟨fun depth text v rest => (hall text.length).1 depth text v rest rfl,
    fun depth text vs rest => (hall text.length).2.1 depth text vs rest rfl,
    fun depth text members rest => (hall text.length).2.2 depth text members rest rfl⟩

end

/-! ### The parts of a scalar -/

/-- What stands between the quotes of a string. -/
inductive Body : Text → Prop where
  | nil : Body []
  | plain {c : Char} {text : Text} : c ≠ '"' → c ≠ '\\' → Body text → Body (c :: text)
  | escape {c : Char} {text : Text} : Body text → Body ('\\' :: c :: text)

theorem hexDigit_plain {c : Char} {n : Nat} (h : hexDigit c = some n) : c ≠ '"' ∧ c ≠ '\\' := by
  constructor
  · rintro rfl
    cases h
  · rintro rfl
    cases h

theorem hex4_plain {a b c d : Char} {n : Nat} (h : hex4 a b c d = some n) {text : Text}
    (hbody : Body text) : Body (a :: b :: c :: d :: text) := by
  unfold hex4 at h
  split at h
  · rename_i ha hb hc hd
    exact .plain (hexDigit_plain ha).1 (hexDigit_plain ha).2 <|
      .plain (hexDigit_plain hb).1 (hexDigit_plain hb).2 <|
      .plain (hexDigit_plain hc).1 (hexDigit_plain hc).2 <|
      .plain (hexDigit_plain hd).1 (hexDigit_plain hd).2 hbody
  · cases h

/-- The text can stand between quotes as it is. -/
def Splices (text : Text) : Prop := ∀ c ∈ text, c ≠ '"' ∧ c ≠ '\\' ∧ 32 ≤ c.toNat

instance (text : Text) : Decidable (Splices text) :=
  List.decidableBAll _ text

theorem length_le_of_read {s body : Text}
    (h : s.length < body.length ∨ s = body ∧ Splices body) : s.length ≤ body.length := by
  rcases h with hless | ⟨rfl, -⟩
  · exact hless.le
  · exact le_rfl

/-- A string that is read: what was between its quotes, which is longer or stands there
    as it is. What stands behind does not matter. -/
theorem readString_body {lead : Option Nat} {text s rest : Text}
    (h : readString lead text = some (s, rest)) :
    ∃ body, text = body ++ '"' :: rest ∧ Body body ∧
      (s.length < body.length ∨ s = body ∧ Splices body) ∧
      ∀ rest', readString lead (body ++ '"' :: rest') = some (s, rest') := by
  fun_induction readString lead text generalizing s with
  | case1 => cases h
  | case2 rest' =>
    cases h
    exact ⟨[], rfl, .nil, Or.inr ⟨rfl, by decide⟩, fun rest' => rfl⟩
  | case3 => cases h
  | case4 => cases h
  | case5 => cases h
  | case6 lead a b c d more n hn hscalar ih =>
    obtain ⟨body, rfl, hbody, hlength, hread⟩ := ih h
    refine ⟨'\\' :: 'u' :: a :: b :: c :: d :: body, rfl, .escape (hex4_plain hn hbody), ?_, ?_⟩
    · left
      have hle := length_le_of_read hlength
      simp only [List.length_cons]
      omega
    · intro rest'
      simp only [List.cons_append, readString, hn, hscalar]
      exact hread rest'
  | case7 lead a b c d more n hn made hscalar ih =>
    obtain ⟨s', hread', rfl⟩ := map_cons_eq_some.mp h
    obtain ⟨body, rfl, hbody, hlength, hread⟩ := ih hread'
    refine ⟨'\\' :: 'u' :: a :: b :: c :: d :: body, rfl, .escape (hex4_plain hn hbody), ?_, ?_⟩
    · left
      have hle := length_le_of_read hlength
      simp only [List.length_cons]
      omega
    · intro rest'
      simp only [List.cons_append, readString, hn, hscalar, hread rest']
      rfl
  | case8 c more hnot made hmade ih =>
    obtain ⟨s', hread', rfl⟩ := map_cons_eq_some.mp h
    obtain ⟨body, rfl, hbody, hlength, hread⟩ := ih hread'
    refine ⟨'\\' :: c :: body, rfl, .escape hbody, ?_, ?_⟩
    · left
      have hle := length_le_of_read hlength
      simp only [List.length_cons]
      omega
    · intro rest'
      rw [List.cons_append, List.cons_append, readString_escaped hmade, hread rest']
      rfl
  | case9 => cases h
  | case10 lead c more hquote hunicode hescape hplain ih =>
    obtain ⟨s', hread', rfl⟩ := map_cons_eq_some.mp h
    obtain ⟨rfl, hplain⟩ := hplain
    obtain ⟨body, rfl, hbody, hlength, hread⟩ := ih hread'
    have hslash : c ≠ '\\' := by
      obtain ⟨d, ds, hcons⟩ : ∃ d ds, body ++ '"' :: rest = d :: ds :=
        List.exists_cons_of_ne_nil (by simp)
      exact fun heq => hescape d ds heq hcons
    refine ⟨c :: body, rfl, .plain hquote hslash hbody, ?_, ?_⟩
    · rcases hlength with hless | ⟨rfl, hsplices⟩
      · left
        simp only [List.length_cons]
        omega
      · exact Or.inr ⟨rfl, List.forall_mem_cons.mpr ⟨⟨hquote, hslash, hplain⟩, hsplices⟩⟩
    · intro rest'
      rw [List.cons_append, readString_plain hquote hslash hplain, hread rest']
      rfl
  | case11 => cases h

theorem literal_of_lexNumber {text literal rest : Text}
    (h : lexNumber text = some (literal, rest)) : Literal literal := by
  obtain ⟨sign, whole, fraction, exponent, hsign, hwhole, hfraction, hexponent, rfl⟩ :=
    lexNumber_parts h
  exact literal_of_parts hsign hwhole hfraction hexponent

/-- What a scalar is read from: a word, the rest of a string, or a literal. -/
theorem readScalar_cases {text rest : Text} {v : Value F}
    (h : readScalar floats text = some (v, rest)) :
    ((v = .null ∨ ∃ b, v = .bool b) ∧ text = write floats v ++ rest) ∨
      (∃ more s, text = '"' :: more ∧ readString none more = some (s, rest) ∧ v = .str s) ∨
      ∃ literal n, text = literal ++ rest ∧ lexNumber text = some (literal, rest) ∧
        readNumber floats literal = some n ∧ v = .num n := by
  unfold readScalar at h
  split at h
  case h_1 more =>
    obtain ⟨rest', hword, heq⟩ := Option.map_eq_some_iff.mp h
    cases heq
    rw [List.isPrefixOf?_eq_some_iff_append_eq] at hword
    exact Or.inl ⟨Or.inl rfl, by rw [← hword]; rfl⟩
  case h_2 more =>
    obtain ⟨rest', hword, heq⟩ := Option.map_eq_some_iff.mp h
    cases heq
    rw [List.isPrefixOf?_eq_some_iff_append_eq] at hword
    exact Or.inl ⟨Or.inr ⟨true, rfl⟩, by rw [← hword]; rfl⟩
  case h_3 more =>
    obtain ⟨rest', hword, heq⟩ := Option.map_eq_some_iff.mp h
    cases heq
    rw [List.isPrefixOf?_eq_some_iff_append_eq] at hword
    exact Or.inl ⟨Or.inr ⟨false, rfl⟩, by rw [← hword]; rfl⟩
  case h_4 more =>
    obtain ⟨⟨s, rest'⟩, hstring, heq⟩ := Option.map_eq_some_iff.mp h
    cases heq
    exact Or.inr (Or.inl ⟨more, s, rfl, hstring, rfl⟩)
  case h_5 =>
    obtain ⟨⟨literal, rest'⟩, hlex, hnumber⟩ := Option.bind_eq_some_iff.mp h
    obtain ⟨n, hn, heq⟩ := Option.map_eq_some_iff.mp hnumber
    cases heq
    exact Or.inr (Or.inr ⟨literal, n, (lexNumber_eq_some hlex).1, hlex, hn, rfl⟩)

/-- A string is read so whatever stands behind it. -/
theorem readString_append {text s rest : Text} (h : readString none text = some (s, rest))
    (tail : Text) : readString none (text ++ tail) = some (s, rest ++ tail) := by
  obtain ⟨body, rfl, -, -, hread⟩ := readString_body h
  rw [List.append_assoc, List.cons_append]
  exact hread (rest ++ tail)

variable {depth depth' : Nat} {text body key more value behind tail rest : Text} {v : Value F}

theorem gives_scalar_append {c : Char} (h : readScalar floats (c :: more) = some (v, rest))
    (hrest : Delimited (rest ++ tail)) (depth : Nat) :
    Gives floats depth (c :: more ++ tail) (v, rest ++ tail) := by
  rcases readScalar_cases h with ⟨hword, htext⟩ | ⟨more', s, htext, hstring, rfl⟩ |
    ⟨literal, n, htext, hlex, hn, rfl⟩
  · rw [htext, List.append_assoc]
    rcases hword with rfl | ⟨b, rfl⟩
    · exact reads_null _ hrest
    · exact reads_bool b _ hrest
  · cases htext
    refine (gives_scalar (by decide) (by decide) (by decide)).mpr ?_
    show readScalar floats ('"' :: (more ++ tail)) = _
    rw [readScalar, readString_append hstring]
    rfl
  · rw [htext, List.append_assoc]
    exact (gives_literal (literal_of_lexNumber hlex) hrest).mpr ⟨n, hn, rfl⟩

/-! ### What is read at another depth -/

theorem Gives.same {r r' : Value F × Text} (h : Gives floats depth text r)
    (h' : Gives floats depth' text r') : r = r' :=
  (h.mono (Nat.le_max_left _ _)).unique (h'.mono (Nat.le_max_right depth _))

theorem GivesMembers.same {r r' : List (Text × Value F) × Text}
    (h : GivesMembers floats depth text r) (h' : GivesMembers floats depth' text r') : r = r' := by
  have hmono : ∀ {depth depth' r}, GivesMembers floats depth text r → depth ≤ depth' →
      GivesMembers floats depth' text r := by
    rintro depth depth' r ⟨fuel, hread⟩ hle
    exact ⟨fuel, (depth_mono fuel).2.2 _ _ _ _ hle hread⟩
  have hread := (hmono h (Nat.le_max_left _ depth')).read _ le_rfl
  rw [(hmono h' (Nat.le_max_right depth _)).read _ le_rfl] at hread
  exact (Option.some.inj hread).symm

theorem givesItems_ne_nil {vs : List (Value F)} (h : GivesItems floats depth text (vs, rest)) :
    vs ≠ [] := by
  obtain ⟨v, more, -, ⟨items, vs', rest', -, -, heq⟩ | ⟨rest', -, heq⟩⟩ := givesItems_iff.mp h
  · cases heq
    exact List.cons_ne_nil _ _
  · cases heq
    exact List.cons_ne_nil _ _

theorem givesMembers_ne_nil {members : List (Text × Value F)}
    (h : GivesMembers floats depth text (members, rest)) : members ≠ [] := by
  obtain ⟨_, key, _, _, v, _, -, -, -, -, ⟨_, members', _, -, -, heq⟩ | ⟨_, -, heq⟩⟩ :=
    givesMembers_iff.mp h
  · cases heq
    exact List.cons_ne_nil _ _
  · cases heq
    exact List.cons_ne_nil _ _

theorem gives_arr_iff {vs : List (Value F)} (hskip : skipWs text = '[' :: more) (hvs : vs ≠ []) :
    Gives floats depth text (.arr vs, rest) ↔
      1 < depth ∧ GivesItems floats (depth - 1) more (vs, rest) := by
  rw [← gives_skipWs, hskip, gives_arr]
  refine and_congr_right fun _ => ⟨?_, fun h => Or.inr ⟨vs, rest, h, rfl⟩⟩
  rintro (⟨rest', -, heq⟩ | ⟨vs', rest', h, heq⟩)
  · cases heq
    exact absurd rfl hvs
  · cases heq
    exact h

theorem gives_obj_iff {members : List (Text × Value F)} (hskip : skipWs text = '\x7b' :: more)
    (hmembers : GivesMembers floats depth' more (members, rest)) :
    Gives floats depth text (.obj (collectMembers members), rest) ↔
      1 < depth ∧ GivesMembers floats (depth - 1) more (members, rest) := by
  rw [← gives_skipWs, hskip, gives_obj]
  refine and_congr_right fun _ => ⟨?_, fun h => Or.inr ⟨members, rest, h, rfl⟩⟩
  rintro (⟨rest', hclose, -⟩ | ⟨members', rest', h, heq⟩)
  · -- members start with a quote
    obtain ⟨body, -, -, -, -, -, hquote, -⟩ := givesMembers_iff.mp hmembers
    rw [hclose] at hquote
    cases hquote
  · cases h.same hmembers
    exact h

theorem givesItems_last_iff (hv : Gives floats depth' text (v, more))
    (hclose : skipWs more = ']' :: rest) :
    GivesItems floats depth text ([v], rest) ↔ Gives floats depth text (v, more) := by
  refine ⟨fun h => ?_, fun h => givesItems_iff.mpr ⟨v, more, h, Or.inr ⟨rest, hclose, rfl⟩⟩⟩
  obtain ⟨v', more', hv', -⟩ := givesItems_iff.mp h
  cases hv'.same hv
  exact hv'

theorem givesItems_more_iff {items : Text} {vs : List (Value F)}
    (hv : Gives floats depth' text (v, more)) (hcomma : skipWs more = ',' :: items) :
    GivesItems floats depth text (v :: vs, rest) ↔
      Gives floats depth text (v, more) ∧ GivesItems floats depth items (vs, rest) := by
  constructor
  · intro h
    obtain ⟨v', more', hv', hrest⟩ := givesItems_iff.mp h
    cases hv'.same hv
    rw [hcomma] at hrest
    rcases hrest with ⟨items', vs', rest', heq, hitems, heq'⟩ | ⟨rest', heq, -⟩
    · cases heq
      cases heq'
      exact ⟨hv', hitems⟩
    · cases heq
  · rintro ⟨h, hitems⟩
    exact givesItems_iff.mpr ⟨v, more, h, Or.inl ⟨items, vs, rest, hcomma, hitems, rfl⟩⟩

theorem givesMembers_last_iff (hquote : skipWs text = '"' :: body)
    (hkey : readString none body = some (key, more)) (hcolon : skipWs more = ':' :: value)
    (hv : Gives floats depth' value (v, behind)) (hclose : skipWs behind = '\x7d' :: rest) :
    GivesMembers floats depth text ([(key, v)], rest) ↔ Gives floats depth value (v, behind) := by
  constructor
  · intro h
    obtain ⟨body', key', more', value', v', behind', hquote', hkey', hcolon', hv', -⟩ :=
      givesMembers_iff.mp h
    cases hquote.symm.trans hquote'
    cases hkey.symm.trans hkey'
    cases hcolon.symm.trans hcolon'
    cases hv'.same hv
    exact hv'
  · exact fun h => givesMembers_iff.mpr
      ⟨body, key, more, value, v, behind, hquote, hkey, hcolon, h, Or.inr ⟨rest, hclose, rfl⟩⟩

theorem givesMembers_more_iff {others : Text} {members : List (Text × Value F)}
    (hquote : skipWs text = '"' :: body) (hkey : readString none body = some (key, more))
    (hcolon : skipWs more = ':' :: value) (hv : Gives floats depth' value (v, behind))
    (hcomma : skipWs behind = ',' :: others) :
    GivesMembers floats depth text ((key, v) :: members, rest) ↔
      Gives floats depth value (v, behind) ∧ GivesMembers floats depth others (members, rest) := by
  constructor
  · intro h
    obtain ⟨body', key', more', value', v', behind', hquote', hkey', hcolon', hv', hrest⟩ :=
      givesMembers_iff.mp h
    cases hquote.symm.trans hquote'
    cases hkey.symm.trans hkey'
    cases hcolon.symm.trans hcolon'
    cases hv'.same hv
    rw [hcomma] at hrest
    rcases hrest with ⟨others', members', rest', heq, hothers, heq'⟩ | ⟨rest', heq, -⟩
    · cases heq
      cases heq'
      exact ⟨hv', hothers⟩
    · cases heq
  · rintro ⟨h, hothers⟩
    exact givesMembers_iff.mpr ⟨body, key, more, value, v, behind, hquote, hkey, hcolon, h,
      Or.inl ⟨others, members, rest, hcomma, hothers, rfl⟩⟩

/-! ### What stands behind a value -/

theorem skipWs_append_of_cons {c : Char} (h : skipWs text = c :: more) (tail : Text) :
    skipWs (text ++ tail) = c :: (more ++ tail) := by
  obtain ⟨ws, hws, hc, rfl⟩ := skipWs_eq_cons h
  rw [List.append_assoc, List.cons_append, skipWs_blank_cons hws hc]

theorem delimited_of_skipWs {c : Char} (h : skipWs text = c :: more)
    (hc : c.isDigit = false ∧ c ≠ '.' ∧ c ≠ 'e' ∧ c ≠ 'E') (tail : Text) :
    Delimited (text ++ tail) := by
  obtain ⟨ws, hws, -, rfl⟩ := skipWs_eq_cons h
  rw [List.append_assoc]
  exact delimited_ws hws (delimited_cons hc _)

/-- Whatever stands behind it and at whatever depth, a value is read in the same way. -/
theorem append_rules : Rules floats
    (fun _ text v rest => ∀ tail, Delimited (rest ++ tail) → ∀ depth,
      Gives floats depth (text ++ tail) (v, rest ++ tail) ↔ Gives floats depth text (v, rest))
    (fun _ text vs rest => ∀ tail depth,
      GivesItems floats depth (text ++ tail) (vs, rest ++ tail) ↔
        GivesItems floats depth text (vs, rest))
    (fun _ text members rest => ∀ tail depth,
      GivesMembers floats depth (text ++ tail) (members, rest ++ tail) ↔
        GivesMembers floats depth text (members, rest)) where
  scalar := by
    intro _ text c more v rest hskip harr hobj hread tail hrest depth
    obtain ⟨-, -, hws, -⟩ := skipWs_eq_cons hskip
    rw [← gives_skipWs, skipWs_append_of_cons hskip, ← List.cons_append]
    refine iff_of_true (gives_scalar_append hread hrest depth) ?_
    rw [← gives_skipWs, hskip]
    exact (gives_scalar hws harr hobj).mpr hread
  emptyArr := by
    intro _ text more rest hskip _ hclose tail _ depth
    rw [← gives_skipWs, skipWs_append_of_cons hskip, ← @gives_skipWs F floats depth text, hskip,
      gives_arr, gives_arr, skipWs_append_of_cons hclose, hclose]
    refine and_congr_right fun _ => ?_
    exact iff_of_true (Or.inl ⟨_, rfl, rfl⟩) (Or.inl ⟨_, rfl, rfl⟩)
  arr := by
    intro _ text more vs rest hskip _ hvs ih tail _ depth
    rw [gives_arr_iff (skipWs_append_of_cons hskip tail) (givesItems_ne_nil hvs),
      gives_arr_iff hskip (givesItems_ne_nil hvs), ih]
  emptyObj := by
    intro _ text more rest hskip _ hclose tail _ depth
    rw [← gives_skipWs, skipWs_append_of_cons hskip, ← @gives_skipWs F floats depth text, hskip,
      gives_obj, gives_obj, skipWs_append_of_cons hclose, hclose]
    refine and_congr_right fun _ => ?_
    exact iff_of_true (Or.inl ⟨_, rfl, rfl⟩) (Or.inl ⟨_, rfl, rfl⟩)
  obj := by
    intro _ text more members rest hskip _ hmembers ih tail _ depth
    rw [gives_obj_iff (skipWs_append_of_cons hskip tail) ((ih tail _).mpr hmembers),
      gives_obj_iff hskip hmembers, ih]
  lastItem := by
    intro _ text v more rest hv ih hclose tail depth
    have hdelimited := delimited_of_skipWs hclose (by decide) tail
    rw [givesItems_last_iff ((ih tail hdelimited _).mpr hv) (skipWs_append_of_cons hclose tail),
      givesItems_last_iff hv hclose, ih tail hdelimited]
  item := by
    intro _ text v more items vs rest hv ihv hcomma _ ihvs tail depth
    have hdelimited := delimited_of_skipWs hcomma (by decide) tail
    rw [givesItems_more_iff ((ihv tail hdelimited _).mpr hv) (skipWs_append_of_cons hcomma tail),
      givesItems_more_iff hv hcomma, ihv tail hdelimited, ihvs]
  lastMember := by
    intro _ text body key more value v behind rest hquote hkey hcolon hv ih hclose tail depth
    have hdelimited := delimited_of_skipWs hclose (by decide) tail
    rw [givesMembers_last_iff (skipWs_append_of_cons hquote tail) (readString_append hkey tail)
        (skipWs_append_of_cons hcolon tail) ((ih tail hdelimited _).mpr hv)
        (skipWs_append_of_cons hclose tail),
      givesMembers_last_iff hquote hkey hcolon hv hclose, ih tail hdelimited]
  member := by
    intro _ text body key more value v behind others members rest hquote hkey hcolon hv ihv hcomma _
      ihs tail depth
    have hdelimited := delimited_of_skipWs hcomma (by decide) tail
    rw [givesMembers_more_iff (skipWs_append_of_cons hquote tail) (readString_append hkey tail)
        (skipWs_append_of_cons hcolon tail) ((ihv tail hdelimited _).mpr hv)
        (skipWs_append_of_cons hcomma tail),
      givesMembers_more_iff hquote hkey hcolon hv hcomma, ihv tail hdelimited, ihs]

theorem gives_append_iff (h : Gives floats depth' text (v, rest))
    (hrest : Delimited (rest ++ tail)) :
    Gives floats depth (text ++ tail) (v, rest ++ tail) ↔ Gives floats depth text (v, rest) :=
  append_rules.hold.1 depth' text v rest h tail hrest depth

/-! ### Values as they are read -/

theorem mem_insertMember {members : List (Text × Value F)} {member : Text × Value F}
    (h : member ∈ insertMember key v members) : member = (key, v) ∨ member ∈ members := by
  induction members with
  | nil => exact Or.inl (List.mem_singleton.mp h)
  | cons first members ih =>
    rw [insertMember] at h
    split at h
    · exact (List.mem_cons.mp h).imp_right (List.mem_cons_of_mem _)
    · split at h
      · exact List.mem_cons.mp h
      · rcases List.mem_cons.mp h with rfl | hmem
        · exact Or.inr List.mem_cons_self
        · exact (ih hmem).imp_right (List.mem_cons_of_mem _)

theorem mem_collectMembers {members : List (Text × Value F)} {member : Text × Value F}
    (h : member ∈ collectMembers members) : member ∈ members := by
  induction members using List.reverseRecOn with
  | nil => exact h
  | append_singleton members last ih =>
    rw [collectMembers, List.foldl_append] at h
    rcases mem_insertMember h with rfl | hmem
    · exact List.mem_append_right _ List.mem_cons_self
    · exact List.mem_append_left _ (ih hmem)

theorem insertMember_sorted {members : List (Text × Value F)}
    (h : (members.map Prod.fst).Pairwise (· < ·)) :
    ((insertMember key v members).map Prod.fst).Pairwise (· < ·) := by
  induction members with
  | nil => exact List.pairwise_singleton _ _
  | cons first members ih =>
    rw [List.map_cons, List.pairwise_cons] at h
    obtain ⟨hfirst, hrest⟩ := h
    rw [insertMember]
    split
    · rename_i hsame
      subst hsame
      exact List.pairwise_cons.mpr ⟨hfirst, hrest⟩
    · rename_i hne
      split
      · rename_i hless
        refine List.pairwise_cons.mpr ⟨?_, List.pairwise_cons.mpr ⟨hfirst, hrest⟩⟩
        intro name hname
        rcases List.mem_cons.mp hname with rfl | hname
        · exact hless
        · exact List.lt_trans hless (hfirst name hname)
      · rename_i hless
        refine List.pairwise_cons.mpr ⟨?_, ih hrest⟩
        intro name hname
        obtain ⟨member, hmember, rfl⟩ := List.mem_map.mp hname
        rcases mem_insertMember hmember with rfl | hmember
        · exact (List.le_iff_lt_or_eq.mp (List.not_lt.mp hless)).resolve_right (Ne.symm hne)
        · exact hfirst _ (List.mem_map_of_mem hmember)

theorem collectMembers_pairwise (members : List (Text × Value F)) :
    ((collectMembers members).map Prod.fst).Pairwise (· < ·) := by
  induction members using List.reverseRecOn with
  | nil => exact List.Pairwise.nil
  | append_singleton members last ih =>
    rw [collectMembers, List.foldl_append]
    exact insertMember_sorted ih

theorem nestingItems_le_iff {vs : List (Value F)} {n : Nat} :
    nestingItems vs ≤ n ↔ ∀ v ∈ vs, v.nesting ≤ n := by
  induction vs with
  | nil => simp [nestingItems]
  | cons v vs ih => simp [nestingItems, ih]

theorem nestingMembers_le_iff {members : List (Text × Value F)} {n : Nat} :
    nestingMembers members ≤ n ↔ ∀ member ∈ members, member.2.nesting ≤ n := by
  induction members with
  | nil => simp [nestingMembers]
  | cons member members ih => simp [nestingMembers, ih]

/-- A value that is read is filed, and nests no deeper than the reader went. -/
theorem value_rules : Rules floats (fun depth _ v _ => v.Filed ∧ v.nesting ≤ depth - 1)
    (fun depth _ vs _ => FiledItems vs ∧ nestingItems vs ≤ depth - 1)
    (fun depth _ members _ => FiledMembers members ∧ nestingMembers members ≤ depth - 1) where
  scalar := by
    intro depth _ c more v rest _ _ _ hread
    rcases readScalar_cases hread with
      ⟨rfl | ⟨b, rfl⟩, -⟩ | ⟨-, s, -, -, rfl⟩ | ⟨-, n, -, -, -, rfl⟩
    all_goals exact ⟨trivial, Nat.zero_le _⟩
  emptyArr := by
    intro depth _ more rest _ hdepth _
    exact ⟨trivial, by simp only [Value.nesting, nestingItems]; omega⟩
  arr := by
    intro depth _ more vs rest _ hdepth _ ih
    exact ⟨ih.1, by simp only [Value.nesting]; omega⟩
  emptyObj := by
    intro depth _ more rest _ hdepth _
    exact ⟨⟨List.Pairwise.nil, trivial⟩, by simp only [Value.nesting, nestingMembers]; omega⟩
  obj := by
    intro depth _ more members rest _ hdepth _ ih
    obtain ⟨hfiled, hnesting⟩ := ih
    refine ⟨⟨collectMembers_pairwise members, ?_⟩, ?_⟩
    · exact filedMembers_iff.mpr fun member hmember =>
        filedMembers_iff.mp hfiled member (mem_collectMembers hmember)
    · have hcollected : nestingMembers (collectMembers members) ≤ depth - 1 - 1 :=
        nestingMembers_le_iff.mpr fun member hmember =>
          nestingMembers_le_iff.mp hnesting member (mem_collectMembers hmember)
      simp only [Value.nesting]
      omega
  lastItem := by
    intro depth _ v more rest _ ih _
    exact ⟨⟨ih.1, trivial⟩, by simpa [nestingItems] using ih.2⟩
  item := by
    intro depth _ v more items vs rest _ ihv _ _ ihvs
    exact ⟨⟨ihv.1, ihvs.1⟩, Nat.max_le.mpr ⟨ihv.2, ihvs.2⟩⟩
  lastMember := by
    intro depth _ body key more value v behind rest _ _ _ _ ih _
    exact ⟨⟨ih.1, trivial⟩, by simpa [nestingMembers] using ih.2⟩
  member := by
    intro depth _ body key more value v behind others members rest _ _ _ _ ihv _ _ ihs
    exact ⟨⟨ihv.1, ihs.1⟩, Nat.max_le.mpr ⟨ihv.2, ihs.2⟩⟩

theorem fromStr_value {text : Text} {v : Value F} (h : fromStr floats text = some v) :
    v.Filed ∧ v.nesting < recursionLimit := by
  obtain ⟨rest, hgives, -⟩ := fromStr_eq_some.mp h
  obtain ⟨hfiled, hnesting⟩ := value_rules.hold.1 recursionLimit text v rest hgives
  exact ⟨hfiled, Nat.lt_of_le_pred (by decide) hnesting⟩

end AiDaemon.Json
