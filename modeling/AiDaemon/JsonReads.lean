import AiDaemon.Json

/-!
# Reading JSON from parts

The reader counts its fuel down, so what it makes of a text is a function of
the two.  `Gives` forgets the fuel: some amount of it reads the text so.  By
`gives_iff` the amount `fromStr` starts with is always enough, and from there on
nothing mentions fuel.
-/

namespace AiDaemon.Json

variable {F : Type} (floats : Floats F)

/-! ### White space -/

theorem length_skipWs_le (text : Text) : (skipWs text).length ≤ text.length :=
  (List.dropWhile_suffix _).length_le

theorem skipWs_append {ws : Text} (hws : ∀ c ∈ ws, isWs c = true) (text : Text) :
    skipWs (ws ++ text) = skipWs text :=
  List.dropWhile_append_of_pos hws

theorem skipWs_cons {c : Char} (hc : isWs c = false) (text : Text) :
    skipWs (c :: text) = c :: text := by
  simp [skipWs, hc]

theorem skipWs_skipWs (text : Text) : skipWs (skipWs text) = skipWs text := by
  rw [skipWs, List.dropWhile_eq_self_iff]
  exact fun hlen => List.dropWhile_get_zero_not _ _ hlen

theorem length_of_skipWs {text rest : Text} {c : Char} (h : skipWs text = c :: rest) :
    rest.length < text.length := by
  have hle := length_skipWs_le text
  rw [h, List.length_cons] at hle
  omega

/-! ### What is left is shorter -/

theorem map_cons_eq_some {c : Char} {read : Option (Text × Text)} {s rest : Text} :
    (read.map fun (s, rest) => (c :: s, rest)) = some (s, rest) ↔
      ∃ s', read = some (s', rest) ∧ s = c :: s' := by
  constructor
  · intro h
    simp only [Option.map_eq_some_iff] at h
    obtain ⟨⟨s', rest'⟩, hread, heq⟩ := h
    cases heq
    exact ⟨s', hread, rfl⟩
  · rintro ⟨s', rfl, rfl⟩
    rfl

theorem length_readString {lead : Option Nat} {text s rest : Text}
    (h : readString lead text = some (s, rest)) : rest.length < text.length := by
  fun_induction readString lead text generalizing s with
  | case1 => cases h
  | case2 => simp_all
  | case3 => cases h
  | case4 => cases h
  | case5 => cases h
  | case6 lead a b c d tail n hn hscalar ih =>
    have hshort := ih h
    simp only [List.length_cons]
    omega
  | case7 lead a b c d tail n hn made hscalar ih =>
    obtain ⟨s', hread, -⟩ := map_cons_eq_some.mp h
    have hshort := ih hread
    simp only [List.length_cons]
    omega
  | case8 c tail made hmade hnot ih =>
    obtain ⟨s', hread, -⟩ := map_cons_eq_some.mp h
    have hshort := ih hread
    simp only [List.length_cons]
    omega
  | case9 => cases h
  | case10 lead c tail hquote hunicode hescape hplain ih =>
    obtain ⟨s', hread, -⟩ := map_cons_eq_some.mp h
    have hshort := ih hread
    simp only [List.length_cons]
    omega
  | case11 => cases h

theorem lexDigits_eq_some {text digits rest : Text} (h : lexDigits text = some (digits, rest)) :
    text = digits ++ rest ∧ digits ≠ [] := by
  unfold lexDigits at h
  split at h
  · cases h
  · rename_i hne
    cases h
    exact ⟨List.takeWhile_append_dropWhile.symm, hne⟩

theorem lexFraction_eq_some {text fraction rest : Text}
    (h : lexFraction text = some (fraction, rest)) : text = fraction ++ rest := by
  unfold lexFraction at h
  split at h
  · simp only [Option.map_eq_some_iff] at h
    obtain ⟨⟨digits, rest'⟩, hdigits, heq⟩ := h
    cases heq
    rw [(lexDigits_eq_some hdigits).1]
    rfl
  · cases h
    rfl

theorem lexExponent_eq_some {text exponent rest : Text}
    (h : lexExponent text = some (exponent, rest)) : text = exponent ++ rest := by
  unfold lexExponent at h
  split at h
  · split at h
    · split at h
      all_goals
        simp only [Option.map_eq_some_iff] at h
        obtain ⟨⟨digits, rest'⟩, hdigits, heq⟩ := h
        cases heq
        rw [(lexDigits_eq_some hdigits).1]
        rfl
    · cases h
      rfl
  · cases h
    rfl

theorem lexUnsigned_eq_some {text literal rest : Text}
    (h : lexUnsigned text = some (literal, rest)) : text = literal ++ rest ∧ literal ≠ [] := by
  simp only [lexUnsigned, Option.bind_eq_bind, Option.bind_eq_some_iff, Option.pure_def] at h
  obtain ⟨⟨whole, text₁⟩, hwhole, ⟨fraction, text₂⟩, hfraction, ⟨exponent, text₃⟩, hexponent,
    heq⟩ := h
  cases heq
  rw [lexWhole, Option.filter_eq_some_iff] at hwhole
  obtain ⟨htext, hne⟩ := lexDigits_eq_some hwhole.1
  have hrest : text₁ = fraction ++ text₂ := lexFraction_eq_some hfraction
  have hlast : text₂ = exponent ++ text₃ := lexExponent_eq_some hexponent
  constructor
  · rw [htext, hrest, hlast]
    simp
  · simp [hne]

theorem lexNumber_eq_some {text literal rest : Text}
    (h : lexNumber text = some (literal, rest)) : text = literal ++ rest ∧ literal ≠ [] := by
  unfold lexNumber at h
  split at h
  · simp only [Option.map_eq_some_iff] at h
    obtain ⟨⟨digits, rest'⟩, hdigits, heq⟩ := h
    cases heq
    rw [(lexUnsigned_eq_some hdigits).1]
    simp
  · exact lexUnsigned_eq_some h

/-! ### Fuel -/

/-- The text is read so with any fuel from twice the length it takes. -/
def Enough {α : Type} (read : Nat → Option (α × Text)) (text : Text) (r : α × Text) : Prop :=
  r.2.length < text.length ∧
    ∀ fuel, 2 * (text.length - r.2.length) ≤ fuel → read fuel = some r

/-- A reader that takes one unit and then looks at no more of it. -/
theorem Enough.leaf {α : Type} {read : Nat → Option (α × Text)} {text : Text} {r : α × Text}
    (hshort : r.2.length < text.length) (hread : ∀ fuel, read (fuel + 1) = some r) :
    Enough read text r := by
  refine ⟨hshort, fun fuel hfuel => ?_⟩
  obtain ⟨fuel, rfl⟩ : ∃ n, fuel = n + 1 := ⟨fuel - 1, by omega⟩
  exact hread fuel

/-- A reader that takes one unit and hands the rest to another. -/
theorem Enough.node {α β : Type} {read : Nat → Option (α × Text)} {inner : Nat → Option (β × Text)}
    {text text' : Text} {r : α × Text} {r' : β × Text} (h : Enough inner text' r')
    (htext : text'.length ≤ text.length) (hrest : r.2.length ≤ r'.2.length)
    (hless : text'.length < text.length ∨ r.2.length < r'.2.length)
    (hread : ∀ fuel, inner fuel = some r' → read (fuel + 1) = some r) : Enough read text r := by
  obtain ⟨hshort, hinner⟩ := h
  refine ⟨by omega, fun fuel hfuel => ?_⟩
  obtain ⟨fuel, rfl⟩ : ∃ n, fuel = n + 1 := ⟨fuel - 1, by omega⟩
  exact hread fuel (hinner fuel (by omega))

theorem isPrefixOf?_length {p text rest : Text} (h : p.isPrefixOf? text = some rest) :
    rest.length ≤ text.length := by
  rw [List.isPrefixOf?_eq_some_iff_append_eq] at h
  rw [← h, List.length_append]
  omega

theorem length_readScalar {text : Text} {r : Value F × Text} (h : readScalar floats text = some r) :
    r.2.length < text.length := by
  unfold readScalar at h
  split at h
  case h_4 =>
    simp only [Option.map_eq_some_iff] at h
    obtain ⟨⟨s, rest⟩, hstring, rfl⟩ := h
    exact Nat.lt_succ_of_lt (length_readString hstring)
  case h_5 =>
    simp only [Option.bind_eq_some_iff, Option.map_eq_some_iff] at h
    obtain ⟨⟨literal, rest⟩, hlex, n, -, rfl⟩ := h
    obtain ⟨htext, hne⟩ := lexNumber_eq_some hlex
    have hpos := List.length_pos_of_ne_nil hne
    rw [htext, List.length_append]
    show rest.length < literal.length + rest.length
    omega
  all_goals
    simp only [Option.map_eq_some_iff] at h
    obtain ⟨rest, hrest, rfl⟩ := h
    exact Nat.lt_succ_of_le (isPrefixOf?_length hrest)

theorem readValue_enough {fuel : Nat}
    (hitems : ∀ depth text r, readItems floats fuel depth text = some r →
      Enough (readItems floats · depth text) text r)
    (hmembers : ∀ depth text r, readMembers floats fuel depth text = some r →
      Enough (readMembers floats · depth text) text r)
    {depth : Nat} {text : Text} {r : Value F × Text}
    (h : readValue floats (fuel + 1) depth text = some r) :
    Enough (readValue floats · depth text) text r := by
  rw [readValue] at h
  split at h
  case h_1 rest hskip =>
    have hlen := length_of_skipWs hskip
    split at h
    · cases h
    · rename_i hdepth
      split at h
      case h_1 rest' hskip' =>
        cases h
        refine .leaf (lt_trans (length_of_skipWs hskip') hlen) fun fuel => ?_
        rw [readValue, hskip]
        simp only [hdepth, if_false, hskip']
      case h_2 hopen =>
        simp only [Option.map_eq_some_iff] at h
        obtain ⟨⟨vs, rest'⟩, hread, rfl⟩ := h
        have hle := length_skipWs_le rest
        refine (hitems _ _ _ hread).node (by omega) le_rfl (by omega) fun fuel hfuel => ?_
        rw [readValue, hskip]
        simp [hdepth, hfuel]
  case h_2 rest hskip =>
    have hlen := length_of_skipWs hskip
    split at h
    · cases h
    · rename_i hdepth
      split at h
      case h_1 rest' hskip' =>
        cases h
        refine .leaf (lt_trans (length_of_skipWs hskip') hlen) fun fuel => ?_
        rw [readValue, hskip]
        simp only [hdepth, if_false, hskip']
      case h_2 hopen =>
        simp only [Option.map_eq_some_iff] at h
        obtain ⟨⟨members, rest'⟩, hread, rfl⟩ := h
        have hle := length_skipWs_le rest
        refine (hmembers _ _ _ hread).node (by omega) le_rfl (by omega) fun fuel hfuel => ?_
        rw [readValue, hskip]
        simp [hdepth, hfuel]
  case h_3 harr hobj =>
    refine .leaf
      (lt_of_lt_of_le (length_readScalar floats h) (length_skipWs_le text)) fun fuel => ?_
    rw [readValue]
    split
    · rename_i heq
      exact absurd heq (harr _)
    · rename_i heq
      exact absurd heq (hobj _)
    · exact h

theorem readItems_enough {fuel : Nat}
    (hvalue : ∀ depth text r, readValue floats fuel depth text = some r →
      Enough (readValue floats · depth text) text r)
    (hitems : ∀ depth text r, readItems floats fuel depth text = some r →
      Enough (readItems floats · depth text) text r)
    {depth : Nat} {text : Text} {r : List (Value F) × Text}
    (h : readItems floats (fuel + 1) depth text = some r) :
    Enough (readItems floats · depth text) text r := by
  rw [readItems, Option.bind_eq_some_iff] at h
  obtain ⟨⟨v, rest⟩, hv, h⟩ := h
  obtain ⟨hshort, henough⟩ := hvalue _ _ _ hv
  simp only at h hshort henough
  split at h
  case h_1 rest' hskip =>
    simp only [Option.map_eq_some_iff] at h
    obtain ⟨⟨vs, rest''⟩, hread, rfl⟩ := h
    obtain ⟨hshort', henough'⟩ := hitems _ _ _ hread
    simp only at hshort' henough'
    have hlen := length_of_skipWs hskip
    refine ⟨by simp only; omega, fun fuel hfuel => ?_⟩
    simp only at hfuel
    obtain ⟨fuel, rfl⟩ : ∃ n, fuel = n + 1 := ⟨fuel - 1, by omega⟩
    show readItems floats (fuel + 1) depth text = _
    rw [readItems, henough fuel (by omega)]
    simp [hskip, henough' fuel (by omega)]
  case h_2 rest' hskip =>
    cases h
    have hlen := length_of_skipWs hskip
    refine ⟨by simp only; omega, fun fuel hfuel => ?_⟩
    simp only at hfuel
    obtain ⟨fuel, rfl⟩ : ∃ n, fuel = n + 1 := ⟨fuel - 1, by omega⟩
    show readItems floats (fuel + 1) depth text = _
    rw [readItems, henough fuel (by omega)]
    simp [hskip]
  case h_3 => cases h

theorem readMembers_enough {fuel : Nat}
    (hvalue : ∀ depth text r, readValue floats fuel depth text = some r →
      Enough (readValue floats · depth text) text r)
    (hmembers : ∀ depth text r, readMembers floats fuel depth text = some r →
      Enough (readMembers floats · depth text) text r)
    {depth : Nat} {text : Text} {r : List (Text × Value F) × Text}
    (h : readMembers floats (fuel + 1) depth text = some r) :
    Enough (readMembers floats · depth text) text r := by
  rw [readMembers] at h
  split at h
  case h_2 => cases h
  case h_1 rest hquote =>
    rw [Option.bind_eq_some_iff] at h
    obtain ⟨⟨key, rest₁⟩, hkey, h⟩ := h
    have hlen := length_of_skipWs hquote
    have hlen₁ := length_readString hkey
    simp only at h
    split at h
    case h_2 => cases h
    case h_1 rest₂ hcolon =>
      have hlen₂ := length_of_skipWs hcolon
      rw [Option.bind_eq_some_iff] at h
      obtain ⟨⟨v, rest₃⟩, hv, h⟩ := h
      obtain ⟨hshort, henough⟩ := hvalue _ _ _ hv
      simp only at h hshort henough
      split at h
      case h_1 rest₄ hskip =>
        have hlen₄ := length_of_skipWs hskip
        simp only [Option.map_eq_some_iff] at h
        obtain ⟨⟨members, rest₅⟩, hread, rfl⟩ := h
        obtain ⟨hshort', henough'⟩ := hmembers _ _ _ hread
        simp only at hshort' henough'
        refine ⟨by simp only; omega, fun fuel hfuel => ?_⟩
        simp only at hfuel
        obtain ⟨fuel, rfl⟩ : ∃ n, fuel = n + 1 := ⟨fuel - 1, by omega⟩
        show readMembers floats (fuel + 1) depth text = _
        rw [readMembers, hquote]
        simp [hkey, hcolon, henough fuel (by omega), hskip, henough' fuel (by omega)]
      case h_2 rest₄ hskip =>
        have hlen₄ := length_of_skipWs hskip
        cases h
        refine ⟨by simp only; omega, fun fuel hfuel => ?_⟩
        simp only at hfuel
        obtain ⟨fuel, rfl⟩ : ∃ n, fuel = n + 1 := ⟨fuel - 1, by omega⟩
        show readMembers floats (fuel + 1) depth text = _
        rw [readMembers, hquote]
        simp [hkey, hcolon, henough fuel (by omega), hskip]
      case h_3 => cases h

/-- Whatever fuel a text was read with, twice the length it takes is enough. -/
theorem fuel_enough (fuel : Nat) :
    (∀ depth text r, readValue floats fuel depth text = some r →
      Enough (readValue floats · depth text) text r) ∧
    (∀ depth text r, readItems floats fuel depth text = some r →
      Enough (readItems floats · depth text) text r) ∧
    (∀ depth text r, readMembers floats fuel depth text = some r →
      Enough (readMembers floats · depth text) text r) := by
  induction fuel with
  | zero =>
    refine ⟨?_, ?_, ?_⟩
    · intro depth text r h
      cases h
    · intro depth text r h
      cases h
    · intro depth text r h
      cases h
  | succ fuel ih =>
    obtain ⟨hvalue, hitems, hmembers⟩ := ih
    refine ⟨?_, ?_, ?_⟩
    · intro depth text r h
      exact readValue_enough floats hitems hmembers h
    · intro depth text r h
      exact readItems_enough floats hvalue hitems h
    · intro depth text r h
      exact readMembers_enough floats hvalue hmembers h

/-! ### Reading without fuel -/

/-- The text starts with this value, and this is left of it. -/
def Gives (depth : Nat) (text : Text) (r : Value F × Text) : Prop :=
  ∃ fuel, readValue floats fuel depth text = some r

def GivesItems (depth : Nat) (text : Text) (r : List (Value F) × Text) : Prop :=
  ∃ fuel, readItems floats fuel depth text = some r

def GivesMembers (depth : Nat) (text : Text) (r : List (Text × Value F) × Text) : Prop :=
  ∃ fuel, readMembers floats fuel depth text = some r

variable {floats} {depth : Nat} {text rest : Text}

theorem Gives.enough {r : Value F × Text} (h : Gives floats depth text r) :
    Enough (readValue floats · depth text) text r := by
  obtain ⟨fuel, h⟩ := h
  exact (fuel_enough floats fuel).1 _ _ _ h

theorem GivesItems.enough {r : List (Value F) × Text} (h : GivesItems floats depth text r) :
    Enough (readItems floats · depth text) text r := by
  obtain ⟨fuel, h⟩ := h
  exact (fuel_enough floats fuel).2.1 _ _ _ h

theorem GivesMembers.enough {r : List (Text × Value F) × Text}
    (h : GivesMembers floats depth text r) :
    Enough (readMembers floats · depth text) text r := by
  obtain ⟨fuel, h⟩ := h
  exact (fuel_enough floats fuel).2.2 _ _ _ h

theorem Gives.read {r : Value F × Text} (h : Gives floats depth text r) (fuel : Nat)
    (hfuel : 2 * text.length ≤ fuel) : readValue floats fuel depth text = some r :=
  h.enough.2 fuel (by omega)

theorem GivesItems.read {r : List (Value F) × Text} (h : GivesItems floats depth text r)
    (fuel : Nat)
    (hfuel : 2 * text.length ≤ fuel) : readItems floats fuel depth text = some r :=
  h.enough.2 fuel (by omega)

theorem GivesMembers.read {r : List (Text × Value F) × Text} (h : GivesMembers floats depth text r)
    (fuel : Nat) (hfuel : 2 * text.length ≤ fuel) : readMembers floats fuel depth text = some r :=
  h.enough.2 fuel (by omega)

theorem Gives.unique {r r' : Value F × Text} (h : Gives floats depth text r)
    (h' : Gives floats depth text r') : r = r' := by
  have hread := h.read _ le_rfl
  rw [h'.read _ le_rfl] at hread
  exact (Option.some.inj hread).symm

/-- **Reading a document** is reading a value and finding nothing after it. -/
theorem fromStr_eq_some {v : Value F} :
    fromStr floats text = some v ↔
      ∃ rest, Gives floats recursionLimit text (v, rest) ∧ skipWs rest = [] := by
  rw [fromStr, Option.bind_eq_some_iff]
  constructor
  · rintro ⟨⟨v', rest⟩, hread, hend⟩
    simp only [Option.ite_none_right_eq_some, Option.some.injEq] at hend
    obtain ⟨hend, rfl⟩ := hend
    exact ⟨rest, ⟨_, hread⟩, hend⟩
  · rintro ⟨rest, hgives, hend⟩
    exact ⟨(v, rest), hgives.read _ (by omega), by simp [hend]⟩

theorem readValue_skipWs (fuel : Nat) :
    readValue floats fuel depth (skipWs text) = readValue floats fuel depth text := by
  cases fuel with
  | zero => rfl
  | succ fuel => simp only [readValue, skipWs_skipWs]

theorem gives_skipWs {r : Value F × Text} :
    Gives floats depth (skipWs text) r ↔ Gives floats depth text r := by
  simp only [Gives, readValue_skipWs]

theorem gives_ws {ws : Text} (hws : ∀ c ∈ ws, isWs c = true) {r : Value F × Text} :
    Gives floats depth (ws ++ text) r ↔ Gives floats depth text r := by
  rw [← gives_skipWs, skipWs_append hws, gives_skipWs]

/-! ### The rules of the reader -/

/-- A value that opens no bracket is read without looking at the depth. -/
theorem gives_scalar {c : Char} (hws : isWs c = false) (harr : c ≠ '[') (hobj : c ≠ '\x7b')
    {r : Value F × Text} :
    Gives floats depth (c :: text) r ↔ readScalar floats (c :: text) = some r := by
  have hread :
    ∀ fuel, readValue floats (fuel + 1) depth (c :: text) = readScalar floats (c :: text) := by
    intro fuel
    rw [readValue, skipWs_cons hws]
    split
    · rename_i heq
      exact absurd (List.head_eq_of_cons_eq heq) harr
    · rename_i heq
      exact absurd (List.head_eq_of_cons_eq heq) hobj
    · rfl
  constructor
  · rintro ⟨fuel, h⟩
    cases fuel with
    | zero => cases h
    | succ fuel => rwa [hread] at h
  · intro h
    exact ⟨1, by rwa [hread 0]⟩

theorem givesItems_iff {r : List (Value F) × Text} :
    GivesItems floats depth text r ↔
      ∃ v rest, Gives floats depth text (v, rest) ∧
        ((∃ rest' vs rest'', skipWs rest = ',' :: rest' ∧
            GivesItems floats depth rest' (vs, rest'') ∧ r = (v :: vs, rest'')) ∨
          ∃ rest', skipWs rest = ']' :: rest' ∧ r = ([v], rest')) := by
  constructor
  · rintro ⟨fuel, h⟩
    cases fuel with
    | zero => cases h
    | succ fuel =>
      rw [readItems, Option.bind_eq_some_iff] at h
      obtain ⟨⟨v, rest⟩, hv, h⟩ := h
      refine ⟨v, rest, ⟨fuel, hv⟩, ?_⟩
      simp only at h
      split at h
      case h_1 rest' hskip =>
        simp only [Option.map_eq_some_iff] at h
        obtain ⟨⟨vs, rest''⟩, hread, rfl⟩ := h
        exact Or.inl ⟨rest', vs, rest'', hskip, ⟨fuel, hread⟩, rfl⟩
      case h_2 rest' hskip =>
        cases h
        exact Or.inr ⟨rest', hskip, rfl⟩
      case h_3 => cases h
  · rintro ⟨v, rest, hv, ⟨rest', vs, rest'', hskip, hvs, rfl⟩ | ⟨rest', hskip, rfl⟩⟩
    · -- both parts are read with the larger amount
      refine ⟨2 * text.length + 2 * rest'.length + 1, ?_⟩
      rw [readItems, hv.read _ (by omega)]
      simp [hskip, hvs.read (2 * text.length + 2 * rest'.length) (by omega)]
    · refine ⟨2 * text.length + 1, ?_⟩
      rw [readItems, hv.read _ (by omega)]
      simp [hskip]

theorem givesMembers_iff {r : List (Text × Value F) × Text} :
    GivesMembers floats depth text r ↔
      ∃ rest key rest₁ rest₂ v rest₃, skipWs text = '"' :: rest ∧
        readString none rest = some (key, rest₁) ∧ skipWs rest₁ = ':' :: rest₂ ∧
        Gives floats depth rest₂ (v, rest₃) ∧
        ((∃ rest' members rest'', skipWs rest₃ = ',' :: rest' ∧
            GivesMembers floats depth rest' (members, rest'') ∧
            r = ((key, v) :: members, rest'')) ∨
          ∃ rest', skipWs rest₃ = '\x7d' :: rest' ∧ r = ([(key, v)], rest')) := by
  constructor
  · rintro ⟨fuel, h⟩
    cases fuel with
    | zero => cases h
    | succ fuel =>
      rw [readMembers] at h
      split at h
      case h_2 => cases h
      case h_1 rest hquote =>
        rw [Option.bind_eq_some_iff] at h
        obtain ⟨⟨key, rest₁⟩, hkey, h⟩ := h
        simp only at h
        split at h
        case h_2 => cases h
        case h_1 rest₂ hcolon =>
          rw [Option.bind_eq_some_iff] at h
          obtain ⟨⟨v, rest₃⟩, hv, h⟩ := h
          refine ⟨rest, key, rest₁, rest₂, v, rest₃, hquote, hkey, hcolon, ⟨fuel, hv⟩, ?_⟩
          simp only at h
          split at h
          case h_1 rest' hskip =>
            simp only [Option.map_eq_some_iff] at h
            obtain ⟨⟨members, rest''⟩, hread, rfl⟩ := h
            exact Or.inl ⟨rest', members, rest'', hskip, ⟨fuel, hread⟩, rfl⟩
          case h_2 rest' hskip =>
            cases h
            exact Or.inr ⟨rest', hskip, rfl⟩
          case h_3 => cases h
  · rintro ⟨rest, key, rest₁, rest₂, v, rest₃, hquote, hkey, hcolon, hv,
      ⟨rest', members, rest'', hskip, hmembers, rfl⟩ | ⟨rest', hskip, rfl⟩⟩
    · refine ⟨2 * rest₂.length + 2 * rest'.length + 1, ?_⟩
      rw [readMembers, hquote]
      simp [hkey, hcolon, hv.read (2 * rest₂.length + 2 * rest'.length) (by omega), hskip,
        hmembers.read (2 * rest₂.length + 2 * rest'.length) (by omega)]
    · refine ⟨2 * rest₂.length + 1, ?_⟩
      rw [readMembers, hquote]
      simp [hkey, hcolon, hv.read (2 * rest₂.length) (by omega), hskip]

theorem givesItems_skipWs {r : List (Value F) × Text} :
    GivesItems floats depth (skipWs text) r ↔ GivesItems floats depth text r := by
  rw [givesItems_iff, givesItems_iff]
  simp only [gives_skipWs]

theorem givesMembers_skipWs {r : List (Text × Value F) × Text} :
    GivesMembers floats depth (skipWs text) r ↔ GivesMembers floats depth text r := by
  rw [givesMembers_iff, givesMembers_iff]
  simp only [skipWs_skipWs]

/-- No value starts with a closing bracket, so what is read as items is not an
    empty array. -/
theorem not_givesItems_close {r : List (Value F) × Text} :
    ¬ GivesItems floats depth (']' :: text) r := by
  rw [givesItems_iff]
  rintro ⟨v, rest, hv, -⟩
  rw [gives_scalar (by decide) (by decide) (by decide)] at hv
  cases hv

theorem gives_arr {r : Value F × Text} :
    Gives floats depth ('[' :: text) r ↔
      1 < depth ∧ ((∃ rest, skipWs text = ']' :: rest ∧ r = (.arr [], rest)) ∨
        ∃ vs rest, GivesItems floats (depth - 1) text (vs, rest) ∧ r = (.arr vs, rest)) := by
  constructor
  · rintro ⟨fuel, h⟩
    cases fuel with
    | zero => cases h
    | succ fuel =>
      rw [readValue, skipWs_cons (by decide)] at h
      simp only at h
      split at h
      · cases h
      · rename_i hdepth
        refine ⟨by omega, ?_⟩
        split at h
        case h_1 rest hclose =>
          cases h
          exact Or.inl ⟨rest, hclose, rfl⟩
        case h_2 hopen =>
          simp only [Option.map_eq_some_iff] at h
          obtain ⟨⟨vs, rest⟩, hread, rfl⟩ := h
          exact Or.inr ⟨vs, rest, givesItems_skipWs.mp ⟨fuel, hread⟩, rfl⟩
  · rintro ⟨hdepth, ⟨rest, hclose, rfl⟩ | ⟨vs, rest, hvs, rfl⟩⟩
    · refine ⟨1, ?_⟩
      rw [readValue, skipWs_cons (by decide)]
      simp [hclose, Nat.not_le.mpr hdepth]
    · rw [← givesItems_skipWs] at hvs
      obtain ⟨fuel, hread⟩ := hvs
      refine ⟨fuel + 1, ?_⟩
      rw [readValue, skipWs_cons (by decide)]
      simp only [Nat.not_le.mpr hdepth, if_false]
      split
      · rename_i rest' hclose
        rw [hclose] at hread
        exact absurd ⟨fuel, hread⟩ not_givesItems_close
      · simp [hread]

theorem gives_obj {r : Value F × Text} :
    Gives floats depth ('\x7b' :: text) r ↔
      1 < depth ∧ ((∃ rest, skipWs text = '\x7d' :: rest ∧ r = (.obj [], rest)) ∨
        ∃ members rest, GivesMembers floats (depth - 1) text (members, rest) ∧
          r = (.obj (collectMembers members), rest)) := by
  constructor
  · rintro ⟨fuel, h⟩
    cases fuel with
    | zero => cases h
    | succ fuel =>
      rw [readValue, skipWs_cons (by decide)] at h
      simp only at h
      split at h
      · cases h
      · rename_i hdepth
        refine ⟨by omega, ?_⟩
        split at h
        case h_1 rest hclose =>
          cases h
          exact Or.inl ⟨rest, hclose, rfl⟩
        case h_2 hopen =>
          simp only [Option.map_eq_some_iff] at h
          obtain ⟨⟨members, rest⟩, hread, rfl⟩ := h
          exact Or.inr ⟨members, rest, givesMembers_skipWs.mp ⟨fuel, hread⟩, rfl⟩
  · rintro ⟨hdepth, ⟨rest, hclose, rfl⟩ | ⟨members, rest, hmembers, rfl⟩⟩
    · refine ⟨1, ?_⟩
      rw [readValue, skipWs_cons (by decide)]
      simp [hclose, Nat.not_le.mpr hdepth]
    · rw [← givesMembers_skipWs] at hmembers
      obtain ⟨fuel, hread⟩ := hmembers
      refine ⟨fuel + 1, ?_⟩
      rw [readValue, skipWs_cons (by decide)]
      simp only [Nat.not_le.mpr hdepth, if_false]
      split
      · rename_i rest' hclose
        -- members start with a quote
        obtain ⟨rest₀, key, rest₁, rest₂, v, rest₃, hquote, -⟩ := givesMembers_iff.mp ⟨fuel, hread⟩
        rw [skipWs_skipWs, hclose] at hquote
        cases hquote
      · simp [hread]

/-! ### Depth -/

/-- What is read with one depth is read with more. -/
def DepthMono {α : Type} (read : Nat → Text → Option (α × Text)) : Prop :=
  ∀ depth depth' text r, depth ≤ depth' → read depth text = some r → read depth' text = some r

theorem readValue_mono {fuel : Nat} (hitems : DepthMono (readItems floats fuel))
    (hmembers : DepthMono (readMembers floats fuel)) : DepthMono (readValue floats (fuel + 1)) := by
  intro depth depth' text r hle h
  rw [readValue] at h ⊢
  split at h
  case h_1 rest hskip =>
    split at h
    · cases h
    · rename_i hdepth
      rw [if_neg (by omega)]
      split at h
      case h_1 rest' hclose => exact h
      case h_2 hopen =>
        simp only [Option.map_eq_some_iff] at h
        obtain ⟨made, hread, rfl⟩ := h
        simp [hitems (depth - 1) (depth' - 1) _ _ (by omega) hread]
  case h_2 rest hskip =>
    split at h
    · cases h
    · rename_i hdepth
      rw [if_neg (by omega)]
      split at h
      case h_1 rest' hclose => exact h
      case h_2 hopen =>
        simp only [Option.map_eq_some_iff] at h
        obtain ⟨made, hread, rfl⟩ := h
        simp [hmembers (depth - 1) (depth' - 1) _ _ (by omega) hread]
  case h_3 => exact h

theorem readItems_mono {fuel : Nat} (hvalue : DepthMono (readValue floats fuel))
    (hitems : DepthMono (readItems floats fuel)) : DepthMono (readItems floats (fuel + 1)) := by
  intro depth depth' text r hle h
  rw [readItems, Option.bind_eq_some_iff] at h ⊢
  obtain ⟨⟨v, rest⟩, hv, h⟩ := h
  refine ⟨(v, rest), hvalue _ _ _ _ hle hv, ?_⟩
  simp only at h ⊢
  split at h
  case h_1 rest' hskip =>
    simp only [Option.map_eq_some_iff] at h
    obtain ⟨made, hread, rfl⟩ := h
    simp [hitems _ _ _ _ hle hread]
  case h_2 rest' hskip => exact h
  case h_3 => cases h

theorem readMembers_mono {fuel : Nat} (hvalue : DepthMono (readValue floats fuel))
    (hmembers : DepthMono (readMembers floats fuel)) :
    DepthMono (readMembers floats (fuel + 1)) := by
  intro depth depth' text r hle h
  rw [readMembers] at h ⊢
  split at h
  case h_2 => cases h
  case h_1 rest hquote =>
    rw [Option.bind_eq_some_iff] at h ⊢
    obtain ⟨⟨key, rest₁⟩, hkey, h⟩ := h
    refine ⟨(key, rest₁), hkey, ?_⟩
    simp only at h ⊢
    split at h
    case h_2 => cases h
    case h_1 rest₂ hcolon =>
      rw [Option.bind_eq_some_iff] at h ⊢
      obtain ⟨⟨v, rest₃⟩, hv, h⟩ := h
      refine ⟨(v, rest₃), hvalue _ _ _ _ hle hv, ?_⟩
      simp only at h ⊢
      split at h
      case h_1 rest₄ hskip =>
        simp only [Option.map_eq_some_iff] at h
        obtain ⟨made, hread, rfl⟩ := h
        simp [hmembers _ _ _ _ hle hread]
      case h_2 rest₄ hskip => exact h
      case h_3 => cases h

theorem depth_mono (fuel : Nat) :
    DepthMono (readValue floats fuel) ∧ DepthMono (readItems floats fuel) ∧
      DepthMono (readMembers floats fuel) := by
  induction fuel with
  | zero =>
    refine ⟨?_, ?_, ?_⟩
    · intro depth depth' text r _ h
      cases h
    · intro depth depth' text r _ h
      cases h
    · intro depth depth' text r _ h
      cases h
  | succ fuel ih =>
    obtain ⟨hvalue, hitems, hmembers⟩ := ih
    exact ⟨readValue_mono hitems hmembers, readItems_mono hvalue hitems,
      readMembers_mono hvalue hmembers⟩

theorem Gives.mono {r : Value F × Text} (h : Gives floats depth text r) {depth' : Nat}
    (hle : depth ≤ depth') : Gives floats depth' text r := by
  obtain ⟨fuel, h⟩ := h
  exact ⟨fuel, (depth_mono fuel).1 _ _ _ _ hle h⟩

end AiDaemon.Json
