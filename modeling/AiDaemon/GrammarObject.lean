import AiDaemon.GrammarTexts
import Mathlib.Data.List.Forall2

/-!
# The body of an object rule

`object_body` as the source writes it, part by part, and what it stands for.
The pairs are any expressions: nothing is known of a pair but the texts it
stands for.  With no required pair the body is a choice of the optional pair
that comes first, with one every comma would be an option of its own; both ways
an object has all the required pairs and some of the optional ones
(`objectBody_exact`).
-/

namespace AiDaemon.Grammar

open Gbnf

/-! ### The body of an object, written -/

theorem render_seqs (e : Body) (es : List Body) :
    render RuleName.text (seqs e es) =
      render RuleName.text e ++ es.flatMap fun e' => ' ' :: render RuleName.text e' := by
  induction es generalizing e with
  | nil => rw [seqs, List.flatMap_nil, List.append_nil]
  | cons e' es ih => rw [seqs, render, ih, List.flatMap_cons, List.cons_append]

/-- `alternatives.join(" | ")`. -/
def joinAlternatives (alternatives : List Text) : Text := List.intercalate " | ".toList alternatives

theorem render_alts (e : Body) (es : List Body) :
    render RuleName.text (alts e es) =
      joinAlternatives ((e :: es).map (render RuleName.text)) := by
  induction es generalizing e with
  | nil => simp [alts, joinAlternatives, List.intercalate]
  | cons e' es ih =>
    rw [alts, render, ih, joinAlternatives, joinAlternatives, List.map_cons, List.map_cons,
      List.map_cons, List.intercalate_cons_cons]

/-- `" (ws \",\" ws part)?"` -/
def laterText (part : Text) : Text := " (ws \",\" ws ".toList ++ part ++ ")?".toList

/-- One alternative for every optional pair, each a suffix of the list. -/
def alternativesText : List Text → List Text
  | [] => []
  | first :: rest => (first ++ rest.flatMap laterText) :: alternativesText rest

/-- The loop over the required pairs. -/
def requiredText : List Text → Text
  | [] => []
  | first :: rest => ' ' :: first ++ rest.flatMap fun part => " ws \",\" ws ".toList ++ part

/-- `object_body`, as the source writes it. -/
def objectText (required optional : List Text) : Text :=
  if required = [] ∧ optional = [] then "\"\x7b\" ws \"\x7d\"".toList
  else
    "\"\x7b\" ws".toList ++
      (if required = [] then
        " (".toList ++ joinAlternatives (alternativesText optional) ++ ")?".toList
      else requiredText required ++ optional.flatMap laterText) ++
      " ws \"\x7d\"".toList

theorem laterText_eq (part : Text) :
    laterText part = ' ' :: '(' :: (render RuleName.text ws ++ ' ' ::
      (render RuleName.text (lit ",") ++ ' ' :: (render RuleName.text ws ++ ' ' ::
        (part ++ [')', '?'])))) := rfl

theorem render_later (part : Body) :
    ' ' :: render RuleName.text (later part) = laterText (render RuleName.text part) := by
  rw [laterText_eq, later, render, render, render_seqs]
  simp only [List.flatMap_cons, List.flatMap_nil, List.append_nil, List.cons_append,
    List.append_assoc, List.nil_append]

/-- The optional pairs after another one. -/
theorem render_laters (optional : List Body) :
    (optional.map later).flatMap (fun e => ' ' :: render RuleName.text e) =
      (optional.map (render RuleName.text)).flatMap laterText := by
  rw [List.flatMap_map, List.flatMap_map]
  simp only [render_later]

theorem render_firstOptional (optional : List Body) :
    (firstOptional optional).map (render RuleName.text) =
      alternativesText (optional.map (render RuleName.text)) := by
  induction optional with
  | nil => rfl
  | cons first rest ih =>
    rw [firstOptional, List.map_cons, List.map_cons, alternativesText, ih, render_seqs,
      render_laters]

theorem render_required (rest : List Body) :
    (rest.flatMap fun part => [ws, lit ",", ws, part]).flatMap
        (fun e => ' ' :: render RuleName.text e) =
      (rest.map (render RuleName.text)).flatMap
        fun part => " ws \",\" ws ".toList ++ part := by
  have hcomma : " ws \",\" ws ".toList =
      ' ' :: (render RuleName.text ws ++ ' ' :: (render RuleName.text (lit ",") ++
        ' ' :: (render RuleName.text ws ++ [' ']))) := by decide
  rw [List.flatMap_assoc, List.flatMap_map, hcomma]
  simp only [List.flatMap_cons, List.flatMap_nil, List.append_nil, List.cons_append,
    List.append_assoc, List.nil_append]

/-- **The body is written as the source writes it.** -/
theorem render_objectBody (required optional : List Body) :
    render RuleName.text (objectBody required optional) =
      objectText (required.map (render RuleName.text)) (optional.map (render RuleName.text)) := by
  have hopened : "\"\x7b\" ws".toList =
      render RuleName.text (lit "\x7b") ++ ' ' :: render RuleName.text ws := by decide
  have hclosed : " ws \"\x7d\"".toList =
      ' ' :: (render RuleName.text ws ++ ' ' :: render RuleName.text (lit "\x7d")) := by decide
  cases required with
  | nil =>
    cases optional with
    | nil => decide
    | cons first rest =>
      have hgroup : " (".toList = [' ', '('] := by decide
      have hend : ")?".toList = [')', '?'] := by decide
      have hfirst := render_firstOptional (first :: rest)
      rw [firstOptional] at hfirst
      rw [objectText, if_neg (by simp), if_pos List.map_nil, objectBody, render_seqs, hopened,
        hclosed, hgroup, hend]
      simp only [List.flatMap_cons, List.flatMap_nil, render, render_alts, hfirst]
      simp only [List.cons_append, List.append_assoc, List.nil_append, List.append_nil]
  | cons first rest =>
    rw [objectText, if_neg (by simp), if_neg (by simp), objectBody, render_seqs, hopened, hclosed,
      List.map_cons, requiredText, List.cons_append, List.cons_append, List.cons_append,
      List.flatMap_cons, List.cons_append, List.cons_append, List.flatMap_cons,
      List.flatMap_append, List.flatMap_append, render_required, render_laters]
    simp only [List.flatMap_cons, List.flatMap_nil, List.cons_append, List.append_assoc,
      List.append_nil]

/-! ### The objects it stands for -/

/-- These texts and no others, one comma between two that follow each other. -/
def ObjectOf (pairs : List Text) : Text → Prop :=
  Between '\x7b' '\x7d' (pairs.map fun pair text => text = pair)

theorem tail_iff {Ps : List (Text → Prop)} {text : Text} :
    Tail Ps text ↔ ∃ pairs : List Text, List.Forall₂ (fun P pair => P pair) Ps pairs ∧
      Tail (pairs.map fun pair text => text = pair) text := by
  induction Ps generalizing text with
  | nil =>
    simp only [List.forall₂_nil_left_iff, exists_eq_left]
    rfl
  | cons P Ps ih =>
    simp only [Tail, ih, Comma]
    constructor
    · rintro ⟨_, t, ⟨w, w', pair, hw, hw', hpair, rfl⟩, ⟨pairs, hpairs, ht⟩, rfl⟩
      exact ⟨pair :: pairs, .cons hpair hpairs, _, t, ⟨w, w', pair, hw, hw', rfl, rfl⟩, ht, rfl⟩
    · rintro ⟨_ , hall, h⟩
      obtain ⟨pair, pairs, hpair, hpairs, rfl⟩ := List.forall₂_cons_left_iff.mp hall
      obtain ⟨_, t, ⟨w, w', _, hw, hw', rfl, rfl⟩, ht, rfl⟩ := h
      exact ⟨_, t, ⟨w, w', _, hw, hw', hpair, rfl⟩, ⟨pairs, hpairs, ht⟩, rfl⟩

theorem joined_iff {Ps : List (Text → Prop)} {text : Text} :
    Joined Ps text ↔ ∃ pairs : List Text, List.Forall₂ (fun P pair => P pair) Ps pairs ∧
      Joined (pairs.map fun pair text => text = pair) text := by
  cases Ps with
  | nil =>
    simp only [List.forall₂_nil_left_iff, exists_eq_left]
    rfl
  | cons P Ps =>
    have htail : ∀ t, Tail Ps t ↔ _ := fun t => tail_iff
    simp only [Joined, htail]
    constructor
    · rintro ⟨pair, t, hpair, ⟨pairs, hpairs, ht⟩, rfl⟩
      exact ⟨pair :: pairs, .cons hpair hpairs, pair, t, rfl, ht, rfl⟩
    · rintro ⟨_, hall, h⟩
      obtain ⟨pair, pairs, hpair, hpairs, rfl⟩ := List.forall₂_cons_left_iff.mp hall
      obtain ⟨_, t, rfl, ht, rfl⟩ := h
      exact ⟨_, t, hpair, ⟨pairs, hpairs, ht⟩, rfl⟩

theorem intercalate_comma (pair : Text) (rest : List Text) :
    List.intercalate [','] (pair :: rest) = pair ++ rest.flatMap fun pair => ',' :: pair := by
  induction rest generalizing pair with
  | nil => simp [List.intercalate]
  | cons other rest ih =>
    rw [List.intercalate_cons_cons, ih, List.flatMap_cons, List.append_assoc]
    rfl

/-- The pairs of an object as they are, with no blanks at all. -/
theorem objectOf_compact (pairs : List Text) :
    ObjectOf pairs ('\x7b' :: (List.intercalate [','] pairs ++ ['\x7d'])) := by
  have htail : ∀ rest : List Text, Tail (rest.map fun pair text => text = pair)
      (rest.flatMap fun pair => ',' :: pair) := by
    intro rest
    induction rest with
    | nil => rfl
    | cons pair rest ih =>
      have hblank : Blank [] := List.forall_mem_nil _
      exact ⟨_, _, ⟨[], [], pair, hblank, hblank, rfl, rfl⟩, ih, rfl⟩
  have hjoined :
    Joined (pairs.map fun pair text => text = pair) (List.intercalate [','] pairs) := by
    cases pairs with
    | nil => rfl
    | cons pair rest => exact ⟨pair, _, rfl, htail rest, intercalate_comma pair rest⟩
  exact ⟨[], _, [], List.forall_mem_nil _, hjoined, List.forall_mem_nil _, rfl⟩

/-- **The body of an object rule**, as it is written, stands for the objects
    with all the required pairs and some of the optional ones, and for no other
    texts. -/
theorem objectBody_exact {rules : RuleName → Option Body} (hprelude : HasPrelude rules)
    (required optional : List Body) :
    render RuleName.text (objectBody required optional) =
        objectText (required.map (render RuleName.text)) (optional.map (render RuleName.text)) ∧
      ∀ text, Derives rules (objectBody required optional) text ↔
        ∃ kept : List Body, kept.Sublist optional ∧ ∃ pairs : List Text,
          List.Forall₂ (Derives rules) (required ++ kept) pairs ∧ ObjectOf pairs text := by
  refine ⟨render_objectBody required optional, fun text => ?_⟩
  rw [derives_objectBody hprelude]
  apply exists_congr
  intro kept
  rw [and_congr_right_iff]
  intro _
  constructor
  · rintro ⟨w, s, w', hw, hs, hw', rfl⟩
    obtain ⟨pairs, hpairs, hjoined⟩ := joined_iff.mp hs
    rw [List.forall₂_map_left_iff] at hpairs
    exact ⟨pairs, hpairs, w, s, w', hw, hjoined, hw', rfl⟩
  · rintro ⟨pairs, hpairs, w, s, w', hw, hjoined, hw', rfl⟩
    exact ⟨w, s, w', hw, joined_iff.mpr ⟨pairs, List.forall₂_map_left_iff.mpr hpairs, hjoined⟩,
      hw', rfl⟩

/-- The second optional pair without the first. -/
theorem object_skips_first :
    Derives (find preludeRules) (objectBody [] [lit "limit:1", lit "tags:2"])
        "\x7btags:2\x7d".toList ∧
      Derives (find preludeRules) (objectBody [lit "query:0"] [lit "limit:1", lit "tags:2"])
        "\x7bquery:0,tags:2\x7d".toList := by
  have hquery : Derives (find preludeRules) (lit "query:0") "query:0".toList := .lit rfl
  have htags : Derives (find preludeRules) (lit "tags:2") "tags:2".toList := .lit rfl
  have hkept : [lit "tags:2"].Sublist [lit "limit:1", lit "tags:2"] := .cons _ (.refl _)
  constructor
  · apply ((objectBody_exact hasPrelude_find [] [lit "limit:1", lit "tags:2"]).2 _).mpr
    exact ⟨_, hkept, ["tags:2".toList], .cons htags .nil, objectOf_compact _⟩
  · apply ((objectBody_exact hasPrelude_find [lit "query:0"]
      [lit "limit:1", lit "tags:2"]).2 _).mpr
    exact ⟨_, hkept, ["query:0".toList, "tags:2".toList], .cons hquery (.cons htags .nil),
      objectOf_compact _⟩

end AiDaemon.Grammar
