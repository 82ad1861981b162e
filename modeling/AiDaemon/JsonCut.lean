import AiDaemon.JsonRules
import AiDaemon.Transition

/-!
# Where a text of JSON can be cut

A quote opens a string or closes one, and which of the two depends on what stands
in front of it.  `modeAfter` follows a text from one mode to the next; whatever is
read starts and ends outside of strings (`Gives.span`).  Where a text is cut
outside of them, behind a comma, with a last member and two braces behind the cut,
that member is the last of an object, and the object is all there is or the last
value of another (`cut_members`).
-/

namespace AiDaemon.Json

open Transition

/-! ### Inside and outside of strings -/

inductive Mode where
  | outside
  | inside
  | escaped
deriving DecidableEq, Repr

/-- No backslash stands outside of a string. -/
def Mode.next : Mode → Char → Option Mode
  | outside, c => if c = '"' then some inside else if c = '\\' then none else some outside
  | inside, c => if c = '"' then some outside else if c = '\\' then some escaped else some inside
  | escaped, _ => some inside

def modeAfter (mode : Mode) (text : Text) : Option Mode := runs Mode.next mode text

variable {text text' more rest : Text} {mode mode' : Mode} {c : Char}

theorem modeAfter_append :
    modeAfter mode (text ++ text') = (modeAfter mode text).bind fun m => modeAfter m text' :=
  runs_append Mode.next mode text text'

theorem modeAfter_cons (h : mode.next c = some mode') :
    modeAfter mode (c :: text) = modeAfter mode' text := by
  rw [modeAfter, runs, h]
  rfl

theorem next_outside (hquote : c ≠ '"') (hslash : c ≠ '\\') :
    Mode.outside.next c = some .outside := by
  simp [Mode.next, hquote, hslash]

theorem next_inside (hquote : c ≠ '"') (hslash : c ≠ '\\') :
    Mode.inside.next c = some .inside := by
  simp [Mode.next, hquote, hslash]

/-- No quote, no backslash and no comma. -/
def Quiet (text : Text) : Prop := ∀ c ∈ text, c ≠ '"' ∧ c ≠ '\\' ∧ c ≠ ','

instance (text : Text) : Decidable (Quiet text) :=
  List.decidableBAll _ text

theorem quiet_append (h : Quiet text) (h' : Quiet text') : Quiet (text ++ text') := by
  intro c hc
  exact (List.mem_append.mp hc).elim (h c) (h' c)

theorem Quiet.outside (h : Quiet text) : modeAfter .outside text = some .outside := by
  induction text with
  | nil => rfl
  | cons c text ih =>
    obtain ⟨hc, hrest⟩ := List.forall_mem_cons.mp h
    rw [modeAfter_cons (next_outside hc.1 hc.2.1)]
    exact ih hrest

theorem isBlank_quiet (h : IsBlank text) : Quiet text := by
  intro c hc
  rcases isWs_cases (h c hc) with rfl | rfl | rfl | rfl
  all_goals decide

theorem Body.stays {body : Text} (h : Body body) :
    modeAfter .inside body = some .inside := by
  induction h with
  | nil => rfl
  | plain hquote hslash _ ih => rwa [modeAfter_cons (next_inside hquote hslash)]
  | escape _ ih => exact ih

/-- A string ends with the first quote that closes it, not before. -/
theorem Body.within {body : Text} (h : Body body) {first behind : Text}
    (heq : body = first ++ behind) :
    modeAfter .inside first ≠ some .outside := by
  induction h generalizing first with
  | nil =>
    obtain rfl : first = [] := (List.nil_eq_append_iff.mp heq).1
    simp [modeAfter, runs]
  | plain hquote hslash _ ih =>
    cases first with
    | nil => simp [modeAfter, runs]
    | cons d first =>
      cases heq
      rw [modeAfter_cons (next_inside hquote hslash)]
      exact ih rfl
  | escape _ ih =>
    cases first with
    | nil => simp [modeAfter, runs]
    | cons d first =>
      cases first with
      | nil =>
        cases heq
        decide
      | cons e first =>
        cases heq
        have hfirst := ih (show _ = first ++ behind from rfl)
        exact hfirst

theorem Splices.body {text : Text} (h : Splices text) : Body text := by
  induction text with
  | nil => exact .nil
  | cons c text ih =>
    obtain ⟨⟨hquote, hslash, -⟩, hrest⟩ := List.forall_mem_cons.mp h
    exact .plain hquote hslash (ih hrest)

theorem modeAfter_key {key : Text} (hkey : Splices key) :
    modeAfter .outside ('"' :: (key ++ ['"', ':'])) = some .outside := by
  rw [modeAfter_cons (show Mode.outside.next '"' = some .inside from rfl), modeAfter_append,
    hkey.body.stays]
  rfl

/-- Read from the other side of a quote, what was outside is inside, and what was
    inside is outside. -/
theorem modes_opposite {m m' : Mode} (h : modeAfter .outside text = some m)
    (h' : modeAfter .inside text = some m') :
    m = .outside ∧ m' = .inside ∨ m = .inside ∧ m' = .outside := by
  induction text generalizing m m' with
  | nil =>
    cases h
    cases h'
    exact Or.inl ⟨rfl, rfl⟩
  | cons c text ih =>
    by_cases hquote : c = '"'
    · subst hquote
      exact (ih h' h).symm.imp And.symm And.symm
    · by_cases hslash : c = '\\'
      · subst hslash
        cases h
      · rw [modeAfter_cons (next_outside hquote hslash)] at h
        rw [modeAfter_cons (next_inside hquote hslash)] at h'
        exact ih h h'

/-! ### What is read, as a part of the text -/

/-- What is left is behind a part that ends outside of strings and is so long at least. -/
def Span (text rest : Text) (n : Nat) : Prop :=
  ∃ used, text = used ++ rest ∧ modeAfter .outside used = some .outside ∧ n ≤ used.length

variable {F : Type} {floats : Floats F}

theorem Span.refl (text : Text) : Span text text 0 := ⟨[], rfl, rfl, le_rfl⟩

theorem Span.trans {m n : Nat} (h : Span text more m) (h' : Span more rest n) :
    Span text rest (m + n) := by
  obtain ⟨used, rfl, hmode, hle⟩ := h
  obtain ⟨used', rfl, hmode', hle'⟩ := h'
  refine ⟨used ++ used', (List.append_assoc _ _ _).symm, ?_, ?_⟩
  · rw [modeAfter_append, hmode]
    exact hmode'
  · rw [List.length_append]
    omega

theorem Span.mono {m n : Nat} (h : Span text rest n) (hle : m ≤ n) : Span text rest m := by
  obtain ⟨used, htext, hmode, hlength⟩ := h
  exact ⟨used, htext, hmode, hle.trans hlength⟩

/-- White space, and a mark that is no quote. -/
theorem span_mark (h : skipWs text = c :: more) (hc : Mode.outside.next c = some .outside) :
    Span text more 1 := by
  obtain ⟨ws, hws, -, rfl⟩ := skipWs_eq_cons h
  refine ⟨ws ++ [c], by simp, ?_, by simp⟩
  rw [modeAfter_append, (isBlank_quiet hws).outside]
  exact modeAfter_cons hc

theorem span_string {body s : Text} (h : skipWs text = '"' :: body)
    (hread : readString none body = some (s, rest)) : Span text rest (s.length + 2) := by
  obtain ⟨ws, hws, -, rfl⟩ := skipWs_eq_cons h
  obtain ⟨inner, rfl, hinner, hlength, -⟩ := readString_body hread
  refine ⟨ws ++ '"' :: (inner ++ ['"']), by simp, ?_, ?_⟩
  · rw [modeAfter_append, (isBlank_quiet hws).outside]
    show modeAfter .inside (inner ++ ['"']) = some .outside
    rw [modeAfter_append, hinner.stays]
    rfl
  · rcases hlength with hless | ⟨rfl, -⟩
    all_goals
      simp only [List.length_append, List.length_cons, List.length_nil]
      omega

/-- What a value takes at least, where it is a string. -/
def Value.cost : Value F → Nat
  | .str s => s.length + 2
  | _ => 0

/-- What members take, with a comma behind each. -/
def membersCost (members : List (Text × Value F)) : Nat :=
  (members.map fun member => member.1.length + member.2.cost + 4).sum

theorem digits_quiet (h : ∀ c ∈ text, c.isDigit = true) : Quiet text := by
  intro c hc
  have hdigit := h c hc
  refine ⟨?_, ?_, ?_⟩
  all_goals
    rintro rfl
    cases hdigit

theorem IsTail.quiet {marks : List Text} {tail : Text} (h : IsTail marks tail)
    (hmarks : ∀ mark ∈ marks, Quiet mark) : Quiet tail := by
  rcases h with rfl | ⟨mark, hmark, digits, rfl, -, hdigits⟩
  · intro c hc
    cases hc
  · exact quiet_append (hmarks mark hmark) (digits_quiet hdigits)

theorem literal_quiet {literal : Text} (h : lexNumber text = some (literal, rest)) :
    Quiet literal := by
  obtain ⟨sign, whole, fraction, exponent, hsign, hwhole, hfraction, hexponent, rfl⟩ :=
    lexNumber_parts h
  refine quiet_append ?_ (quiet_append (quiet_append (digits_quiet hwhole.2.1) ?_) ?_)
  · rcases hsign with rfl | rfl
    · decide
    · decide
  · exact hfraction.quiet (by decide)
  · exact hexponent.quiet (by decide)

/-- A scalar is a string, or has nothing in it that stands between values. -/
theorem readScalar_quiet {v : Value F} (h : readScalar floats text = some (v, rest)) :
    (∃ body s, text = '"' :: body ∧ readString none body = some (s, rest) ∧ v = .str s) ∨
      ∃ atom, text = atom ++ rest ∧ Quiet atom ∧ v.cost = 0 := by
  rcases readScalar_cases h with ⟨hword, htext⟩ | hstring | ⟨literal, n, htext, hlex, -, rfl⟩
  · right
    rcases hword with rfl | ⟨b, rfl⟩
    · exact ⟨"null".toList, htext, by decide, rfl⟩
    · cases b with
      | true => exact ⟨"true".toList, htext, by decide, rfl⟩
      | false => exact ⟨"false".toList, htext, by decide, rfl⟩
  · exact Or.inl hstring
  · exact Or.inr ⟨literal, htext, literal_quiet hlex, rfl⟩

/-- What is read starts and ends outside of strings. -/
theorem span_rules : Rules floats (fun _ text v rest => Span text rest v.cost)
    (fun _ text _ rest => Span text rest 0) (fun _ text _ rest => Span text rest 0) where
  scalar := by
    intro _ text c more v rest hskip _ _ hread
    obtain ⟨ws, hws, -, rfl⟩ := skipWs_eq_cons hskip
    rcases readScalar_quiet hread with ⟨body, s, heq, hstring, rfl⟩ | ⟨atom, heq, hatom, hcost⟩
    · cases heq
      exact span_string hskip hstring
    · refine ⟨ws ++ atom, by rw [heq, List.append_assoc], ?_, by omega⟩
      exact (quiet_append (isBlank_quiet hws) hatom).outside
  emptyArr := by
    intro _ text more rest hskip _ hclose
    exact ((span_mark hskip rfl).trans (span_mark hclose rfl)).mono (Nat.zero_le _)
  arr := by
    intro _ text more vs rest hskip _ _ ih
    exact ((span_mark hskip rfl).trans ih).mono (Nat.zero_le _)
  emptyObj := by
    intro _ text more rest hskip _ hclose
    exact ((span_mark hskip rfl).trans (span_mark hclose rfl)).mono (Nat.zero_le _)
  obj := by
    intro _ text more members rest hskip _ _ ih
    exact ((span_mark hskip rfl).trans ih).mono (Nat.zero_le _)
  lastItem := by
    intro _ text v more rest _ ih hclose
    exact (ih.trans (span_mark hclose rfl)).mono (Nat.zero_le _)
  item := by
    intro _ text v more items vs rest _ ihv hcomma _ ihvs
    exact ((ihv.trans (span_mark hcomma rfl)).trans ihvs).mono (Nat.zero_le _)
  lastMember := by
    intro _ text body key more value v behind rest hquote hkey hcolon _ ih hclose
    have hvalue := ((span_string hquote hkey).trans (span_mark hcolon rfl)).trans ih
    exact (hvalue.trans (span_mark hclose rfl)).mono (Nat.zero_le _)
  member := by
    intro _ text body key more value v behind others members rest hquote hkey hcolon _ ihv hcomma _
      ihs
    have hvalue := ((span_string hquote hkey).trans (span_mark hcolon rfl)).trans ihv
    exact ((hvalue.trans (span_mark hcomma rfl)).trans ihs).mono (Nat.zero_le _)

theorem Gives.span {depth : Nat} {v : Value F} (h : Gives floats depth text (v, rest)) :
    Span text rest v.cost :=
  span_rules.hold.1 depth text v rest h

/-! ### Cuts -/

/-- What stands in front of a cut that is outside of strings and behind a comma. -/
structure Cut (front : Text) : Prop where
  outside : modeAfter .outside front = some .outside
  comma : ∀ c ∈ front.getLast?, c = ','

variable {front tail : Text} {n : Nat}

theorem Cut.behind {used : Text} (h : Cut (used ++ front))
    (hused : modeAfter .outside used = some .outside) : Cut front := by
  refine ⟨?_, ?_⟩
  · have hmode := h.outside
    rwa [modeAfter_append, hused] at hmode
  · intro c hc
    refine h.comma c ?_
    rw [List.getLast?_append]
    exact Option.mem_def.mpr (by rw [Option.mem_def.mp hc]; rfl)

/-- No cut is in white space. -/
theorem Cut.not_quiet (h : Cut front) (hquiet : Quiet front) : front = [] := by
  rcases List.eq_nil_or_concat front with hnil | ⟨init, c, rfl⟩
  · exact hnil
  · have hc : c = ',' := h.comma c (by simp)
    exact absurd hc (hquiet c (by simp)).2.2

/-- What is read ends behind the cut, or in front of it. -/
theorem Cut.locate (h : Cut front) (hspan : Span (front ++ tail) rest n) :
    rest.length < tail.length ∨
      ∃ front', rest = front' ++ tail ∧ Cut front' ∧ n + front'.length ≤ front.length := by
  obtain ⟨used, heq, hmode, hle⟩ := hspan
  rcases List.append_eq_append_iff.mp heq with ⟨between, rfl, rfl⟩ | ⟨front', rfl, rfl⟩
  · cases between with
    | nil => exact Or.inr ⟨[], rfl, ⟨rfl, by simp⟩, by simpa using hle⟩
    | cons c between =>
      left
      simp only [List.cons_append, List.length_cons, List.length_append]
      omega
  · refine Or.inr ⟨front', rfl, h.behind hmode, ?_⟩
    rw [List.length_append]
    omega

/-- The mark that comes next is in front of the cut, unless the cut comes before it. -/
theorem Cut.next (h : Cut front) (hne : front ≠ []) (hskip : skipWs (front ++ tail) = c :: more) :
    ∃ ws front', IsBlank ws ∧ front = ws ++ c :: front' ∧ more = front' ++ tail := by
  obtain ⟨ws, hws, -, heq⟩ := skipWs_eq_cons hskip
  rcases List.append_eq_append_iff.mp heq with ⟨between, rfl, -⟩ | ⟨behind, rfl, heq'⟩
  · -- the whole front would be white space
    refine absurd (h.not_quiet fun d hd => ?_) hne
    exact isBlank_quiet hws d (List.mem_append_left _ hd)
  · cases behind with
    | nil =>
      rw [List.append_nil] at h hne
      exact absurd (h.not_quiet (isBlank_quiet hws)) hne
    | cons d front' =>
      cases heq'
      exact ⟨ws, front', hws, rfl, rfl⟩

/-- A mark that is no quote, where a quote stands behind the cut. -/
theorem Cut.mark (h : Cut front) (htail : tail.head? = some '"')
    (hskip : skipWs (front ++ tail) = c :: more) (hquote : c ≠ '"') (hslash : c ≠ '\\') :
    ∃ front', more = front' ++ tail ∧ Cut front' ∧ 1 + front'.length ≤ front.length ∧
      (c ≠ ',' → front' ≠ []) := by
  have hne : front ≠ [] := by
    rintro rfl
    cases tail with
    | nil => cases htail
    | cons d tail =>
      cases htail
      rw [List.nil_append, skipWs_cons (by decide)] at hskip
      exact hquote (List.head_eq_of_cons_eq hskip).symm
  obtain ⟨ws, front', hws, rfl, rfl⟩ := h.next hne hskip
  refine ⟨front', rfl, ?_, ?_, ?_⟩
  · have hused : modeAfter .outside (ws ++ [c]) = some .outside := by
      rw [modeAfter_append, (isBlank_quiet hws).outside]
      exact modeAfter_cons (next_outside hquote hslash)
    rw [← List.singleton_append, ← List.append_assoc] at h
    exact h.behind hused
  · simp only [List.length_append, List.length_cons]
    omega
  · rintro hcomma rfl
    exact hcomma (h.comma c (by simp))

/-- A string is in front of the cut, or behind it. -/
theorem Cut.string {body s : Text} (h : Cut front) (hne : front ≠ [])
    (hskip : skipWs (front ++ tail) = '"' :: body)
    (hread : readString none body = some (s, rest)) :
    ∃ front', rest = front' ++ tail ∧ Cut front' ∧ s.length + 2 + front'.length ≤ front.length := by
  rcases h.locate (span_string hskip hread) with hless | hbehind
  · -- the cut would be inside of the string
    exfalso
    obtain ⟨ws, front', hws, rfl, rfl⟩ := h.next hne hskip
    obtain ⟨inner, heq, hinner, -, -⟩ := readString_body hread
    have hmode : modeAfter .inside front' = some .outside :=
      (h.behind (isBlank_quiet hws).outside).outside
    rcases List.append_eq_append_iff.mp heq with ⟨between, hin, -⟩ | ⟨between, hfront, hbehind⟩
    · exact hinner.within hin hmode
    · cases between with
      | nil =>
        rw [hfront, List.append_nil, hinner.stays] at hmode
        cases hmode
      | cons d between =>
        have hlengths := congrArg List.length hbehind
        simp only [List.length_append, List.length_cons] at hlengths
        omega
  · exact hbehind

/-- A mark in front of the cut does not end behind it. -/
theorem Cut.not_behind (h : Cut front) (htail : tail.head? = some '"')
    (hskip : skipWs (front ++ tail) = c :: more) (hquote : c ≠ '"') (hslash : c ≠ '\\') :
    ¬ more.length < tail.length := by
  obtain ⟨front', rfl, -, -, -⟩ := h.mark htail hskip hquote hslash
  rw [List.length_append]
  omega

/-- A key and its colon are in front of the cut, and the value begins there. -/
theorem Cut.key {body name value : Text} (h : Cut front) (hne : front ≠ [])
    (htail : tail.head? = some '"') (hquote : skipWs (front ++ tail) = '"' :: body)
    (hkey : readString none body = some (name, more)) (hcolon : skipWs more = ':' :: value) :
    ∃ front', value = front' ++ tail ∧ Cut front' ∧ front' ≠ [] ∧
      name.length + 3 + front'.length ≤ front.length := by
  obtain ⟨front₁, rfl, hcut₁, hle₁⟩ := h.string hne hquote hkey
  obtain ⟨front₂, rfl, hcut₂, hle₂, hne₂⟩ := hcut₁.mark htail hcolon (by decide) (by decide)
  exact ⟨front₂, rfl, hcut₂, hne₂ (by decide), by omega⟩

/-! ### A last member behind the cut -/

/-- The text of a last member, with the brace behind it and one more. -/
structure Ends (floats : Floats F) (tail key : Text) (v : Value F) : Prop where
  quote : tail.head? = some '"'
  members : ∀ depth r, GivesMembers floats depth tail r → r = ([(key, v)], ['\x7d'])
  items : ∀ depth r, ¬ GivesItems floats depth tail r

variable {key : Text} {a : Value F}

/-- The member is the last, and those in front of it have room. -/
def EndsWith (key : Text) (a : Value F) (members : List (Text × Value F)) (room : Nat) : Prop :=
  ∃ before, members = before ++ [(key, a)] ∧ membersCost before ≤ room

/-- The last value is an object whose last member it is. -/
def EndsWithin (key : Text) (a : Value F) (members : List (Text × Value F)) (room : Nat) : Prop :=
  ∃ before outer inner, members = before ++ [(outer, .obj (collectMembers inner))] ∧
    ∃ room', EndsWith key a inner room' ∧ membersCost before + outer.length + 4 + room' ≤ room

theorem EndsWith.cons {members : List (Text × Value F)} {room room' : Nat}
    (h : EndsWith key a members room) {name : Text} {v : Value F}
    (hroom : name.length + v.cost + 4 + room ≤ room') :
    EndsWith key a ((name, v) :: members) room' := by
  obtain ⟨before, rfl, hle⟩ := h
  refine ⟨(name, v) :: before, rfl, ?_⟩
  simp only [membersCost, List.map_cons, List.sum_cons] at hle ⊢
  omega

theorem EndsWithin.cons {members : List (Text × Value F)} {room room' : Nat}
    (h : EndsWithin key a members room) {name : Text} {v : Value F}
    (hroom : name.length + v.cost + 4 + room ≤ room') :
    EndsWithin key a ((name, v) :: members) room' := by
  obtain ⟨before, outer, inner, rfl, room'', hinner, hle⟩ := h
  refine ⟨(name, v) :: before, outer, inner, rfl, room'', hinner, ?_⟩
  simp only [membersCost, List.map_cons, List.sum_cons] at hle ⊢
  omega

/-- Two braces are all that can close around the member. -/
theorem cut_rules (hends : Ends floats tail key a) : Rules floats
    (fun _ text v rest => ∀ front, text = front ++ tail → front ≠ [] → Cut front →
      rest.length < tail.length → rest = [] ∨
        rest = ['\x7d'] ∧ ∃ members room, v = .obj (collectMembers members) ∧
          EndsWith key a members room ∧ 1 + room ≤ front.length)
    (fun _ text _ rest => ∀ front, text = front ++ tail → Cut front → ¬ rest.length < tail.length)
    (fun _ text members rest => ∀ front, text = front ++ tail → Cut front →
      rest.length < tail.length →
        rest = ['\x7d'] ∧ EndsWith key a members front.length ∨
          rest = [] ∧ EndsWithin key a members front.length) where
  scalar := by
    rintro _ _ c more v rest hskip - - hread front rfl hne hcut hless
    exfalso
    rcases readScalar_quiet hread with ⟨body, s, heq, hstring, -⟩ | ⟨atom, heq, hatom, -⟩
    · cases heq
      obtain ⟨front', rfl, -, -⟩ := hcut.string hne hskip hstring
      rw [List.length_append] at hless
      omega
    · obtain ⟨ws, front', hws, rfl, rfl⟩ := hcut.next hne hskip
      rw [← List.cons_append] at heq
      rcases List.append_eq_append_iff.mp heq with ⟨between, rfl, -⟩ | ⟨between, -, rfl⟩
      · refine hne (hcut.not_quiet (quiet_append (isBlank_quiet hws) fun d hd => ?_))
        exact hatom d (List.mem_append_left _ hd)
      · rw [List.length_append] at hless
        omega
  emptyArr := by
    rintro _ _ more rest hskip - hclose front rfl - hcut hless
    obtain ⟨front', rfl, hcut', -, -⟩ := hcut.mark hends.quote hskip (by decide) (by decide)
    exact absurd hless (hcut'.not_behind hends.quote hclose (by decide) (by decide))
  arr := by
    rintro _ _ more vs rest hskip - - ih front rfl - hcut hless
    obtain ⟨front', rfl, hcut', -, -⟩ := hcut.mark hends.quote hskip (by decide) (by decide)
    exact absurd hless (ih front' rfl hcut')
  emptyObj := by
    rintro _ _ more rest hskip - hclose front rfl - hcut hless
    obtain ⟨front', rfl, hcut', -, -⟩ := hcut.mark hends.quote hskip (by decide) (by decide)
    exact absurd hless (hcut'.not_behind hends.quote hclose (by decide) (by decide))
  obj := by
    rintro _ _ more members rest hskip - - ih front rfl - hcut hless
    obtain ⟨front', rfl, hcut', hle, -⟩ := hcut.mark hends.quote hskip (by decide) (by decide)
    rcases ih front' rfl hcut' hless with ⟨hrest, hmembers⟩ | ⟨hrest, -⟩
    · exact Or.inr ⟨hrest, members, front'.length, rfl, hmembers, hle⟩
    · exact Or.inl hrest
  lastItem := by
    rintro _ _ v more rest hv ih hclose front rfl hcut hless
    by_cases hne : front = []
    · subst hne
      exact hends.items _ _ (givesItems_iff.mpr ⟨v, more, hv, Or.inr ⟨rest, hclose, rfl⟩⟩)
    · rcases hcut.locate hv.span with hin | ⟨front', rfl, hcut', -⟩
      · -- an item that is closed by a brace
        rcases ih front rfl hne hcut hin with rfl | ⟨rfl, -⟩
        · cases hclose
        · cases hclose
      · exact hcut'.not_behind hends.quote hclose (by decide) (by decide) hless
  item := by
    rintro _ _ v more items vs rest hv ihv hcomma hvs ihvs front rfl hcut hless
    by_cases hne : front = []
    · subst hne
      exact hends.items _ _
        (givesItems_iff.mpr ⟨v, more, hv, Or.inl ⟨items, vs, rest, hcomma, hvs, rfl⟩⟩)
    · rcases hcut.locate hv.span with hin | ⟨front', rfl, hcut', -⟩
      · rcases ihv front rfl hne hcut hin with rfl | ⟨rfl, -⟩
        · cases hcomma
        · cases hcomma
      · obtain ⟨front'', rfl, hcut'', -, -⟩ :=
          hcut'.mark hends.quote hcomma (by decide) (by decide)
        exact ihvs front'' rfl hcut'' hless
  lastMember := by
    rintro depth _ body name more value v behind rest hquote hkey hcolon hv ih hclose front rfl hcut
      hless
    by_cases hne : front = []
    · subst hne
      cases hends.members depth _ ((givesMembers_last_iff hquote hkey hcolon hv hclose).mpr hv)
      exact Or.inl ⟨rfl, [], rfl, le_rfl⟩
    · obtain ⟨front₁, rfl, hcut₁, hne₁, hle₁⟩ := hcut.key hne hends.quote hquote hkey hcolon
      rcases hcut₁.locate hv.span with hin | ⟨front₂, rfl, hcut₂, -⟩
      · rcases ih front₁ rfl hne₁ hcut₁ hin with
          rfl | ⟨rfl, members, room, rfl, hmembers, hroom⟩
        · cases hclose
        · cases hclose
          refine Or.inr ⟨rfl, [], name, members, rfl, room, hmembers, ?_⟩
          simp only [membersCost, List.map_nil, List.sum_nil]
          omega
      · exact absurd hless (hcut₂.not_behind hends.quote hclose (by decide) (by decide))
  member := by
    rintro depth _ body name more value v behind others members rest hquote hkey hcolon hv ihv
      hcomma hothers ihs front rfl hcut hless
    by_cases hne : front = []
    · subst hne
      have hgives := (givesMembers_more_iff hquote hkey hcolon hv hcomma).mpr ⟨hv, hothers⟩
      cases hends.members depth _ hgives
      exact Or.inl ⟨rfl, [], rfl, le_rfl⟩
    · obtain ⟨front₁, rfl, hcut₁, hne₁, hle₁⟩ := hcut.key hne hends.quote hquote hkey hcolon
      rcases hcut₁.locate hv.span with hin | ⟨front₂, rfl, hcut₂, hle₂⟩
      · rcases ihv front₁ rfl hne₁ hcut₁ hin with rfl | ⟨rfl, -⟩
        · cases hcomma
        · cases hcomma
      · obtain ⟨front₃, rfl, hcut₃, hle₃, -⟩ :=
          hcut₂.mark hends.quote hcomma (by decide) (by decide)
        rcases ihs front₃ rfl hcut₃ hless with ⟨hrest, hmembers⟩ | ⟨hrest, hmembers⟩
        · exact Or.inl ⟨hrest, hmembers.cons (by omega)⟩
        · exact Or.inr ⟨hrest, hmembers.cons (by omega)⟩

/-- **The member behind the cut** is the last of the members, or of the object that is
    the last of their values. -/
theorem cut_members (hends : Ends floats tail key a) {depth : Nat}
    {members : List (Text × Value F)}
    (h : GivesMembers floats depth (front ++ tail) (members, rest))
    (hcut : Cut front) (hrest : rest.length < tail.length) :
    rest = ['\x7d'] ∧ EndsWith key a members front.length ∨
      rest = [] ∧ EndsWithin key a members front.length :=
  (cut_rules hends).hold.2.2 depth _ members rest h front rfl hcut hrest

end AiDaemon.Json
