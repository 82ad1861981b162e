import AiDaemon.Text

/-!
# Grammars for a constrained decoder

The notation a decoder takes its grammar in: quoted literals, sets of
characters, names of rules, sequence, choice, grouping and repetition.
`render` writes an expression down, and `Derives` says which texts it stands
for once the rules are given.  What names a rule is a parameter.

A literal keeps what stands between its quotes, backslashes and all, and
`unquote` reads it; so an expression holds exactly what is written, and what is
written wrongly stands for nothing.
-/

namespace AiDaemon.Gbnf

inductive Expr (N : Type) where
  | lit (quoted : Text)
  | set (negated : Bool) (ranges : List (Char × Char))
  | rule (name : N)
  | seq (e e' : Expr N)
  | alt (e e' : Expr N)
  | group (e : Expr N)
  | opt (e : Expr N)
  | star (e : Expr N)
  | plus (e : Expr N)

variable {N : Type}

/-- One expression after another. -/
def seqs (e : Expr N) : List (Expr N) → Expr N
  | [] => e
  | e' :: es => .seq e (seqs e' es)

/-- One of several expressions. -/
def alts (e : Expr N) : List (Expr N) → Expr N
  | [] => e
  | e' :: es => .alt e (alts e' es)

/-! ### Writing -/

/-- A character in a set. -/
def renderSetChar (c : Char) : Text :=
  if c = '\\' then ['\\', '\\']
  else if c = '\t' then ['\\', 't']
  else if c = '\n' then ['\\', 'n']
  else [c]

def renderRange (range : Char × Char) : Text :=
  if range.1 = range.2 then renderSetChar range.1
  else renderSetChar range.1 ++ '-' :: renderSetChar range.2

def render (nameText : N → Text) : Expr N → Text
  | .lit quoted => '"' :: (quoted ++ ['"'])
  | .set negated ranges =>
    '[' :: ((if negated then ['^'] else []) ++ ranges.flatMap renderRange ++ [']'])
  | .rule name => nameText name
  | .seq e e' => render nameText e ++ ' ' :: render nameText e'
  | .alt e e' => render nameText e ++ " | ".toList ++ render nameText e'
  | .group e => '(' :: (render nameText e ++ [')'])
  | .opt e => render nameText e ++ ['?']
  | .star e => render nameText e ++ ['*']
  | .plus e => render nameText e ++ ['+']

/-! ### Meaning -/

/-- What an escape in a literal stands for.  The numeric ones are left out. -/
def escaped : Char → Option Char
  | '"' => some '"'
  | '\\' => some '\\'
  | '[' => some '['
  | ']' => some ']'
  | 'n' => some '\n'
  | 'r' => some '\r'
  | 't' => some '\t'
  | _ => none

/-- The text between the quotes of a literal, read.  A quote that is not
    escaped would have ended the literal. -/
def unquote : Text → Option Text
  | [] => some []
  | '"' :: _ => none
  | '\\' :: c :: rest =>
    match escaped c with
    | none => none
    | some made => (unquote rest).map (made :: ·)
  | ['\\'] => none
  | c :: rest => (unquote rest).map (c :: ·)

/-- The set takes the character. -/
def inSet (negated : Bool) (ranges : List (Char × Char)) (c : Char) : Bool :=
  (ranges.any fun range => range.1 ≤ c && c ≤ range.2) != negated

/-- The expression stands for the text, under these rules. -/
inductive Derives (rules : N → Option (Expr N)) : Expr N → Text → Prop where
  | lit {quoted text : Text} : unquote quoted = some text → Derives rules (.lit quoted) text
  | set {negated : Bool} {ranges : List (Char × Char)} {c : Char} :
      inSet negated ranges c = true → Derives rules (.set negated ranges) [c]
  | rule {name : N} {e : Expr N} {text : Text} :
      rules name = some e → Derives rules e text → Derives rules (.rule name) text
  | seq {e e' : Expr N} {s t : Text} :
      Derives rules e s → Derives rules e' t → Derives rules (.seq e e') (s ++ t)
  | altLeft {e e' : Expr N} {text : Text} : Derives rules e text → Derives rules (.alt e e') text
  | altRight {e e' : Expr N} {text : Text} : Derives rules e' text → Derives rules (.alt e e') text
  | group {e : Expr N} {text : Text} : Derives rules e text → Derives rules (.group e) text
  | optNone {e : Expr N} : Derives rules (.opt e) []
  | optSome {e : Expr N} {text : Text} : Derives rules e text → Derives rules (.opt e) text
  | starNil {e : Expr N} : Derives rules (.star e) []
  | starCons {e : Expr N} {s t : Text} :
      Derives rules e s → Derives rules (.star e) t → Derives rules (.star e) (s ++ t)
  | plus {e : Expr N} {s t : Text} :
      Derives rules e s → Derives rules (.star e) t → Derives rules (.plus e) (s ++ t)

/-- The expressions stand for the text, one after another. -/
def DerivesAll (rules : N → Option (Expr N)) : List (Expr N) → Text → Prop
  | [], text => text = []
  | e :: es, text => ∃ s t, Derives rules e s ∧ DerivesAll rules es t ∧ text = s ++ t

section

variable {rules : N → Option (Expr N)} {e e' : Expr N} {text : Text}

@[simp] theorem derives_lit {quoted : Text} :
    Derives rules (.lit quoted) text ↔ unquote quoted = some text := by
  constructor
  · intro h
    cases h with
    | lit h => exact h
  · exact .lit

@[simp] theorem derives_set {negated : Bool} {ranges : List (Char × Char)} :
    Derives rules (.set negated ranges) text ↔
      ∃ c, inSet negated ranges c = true ∧ text = [c] := by
  constructor
  · intro h
    cases h with
    | set h => exact ⟨_, h, rfl⟩
  · rintro ⟨c, h, rfl⟩
    exact .set h

theorem derives_rule {name : N} :
    Derives rules (.rule name) text ↔ ∃ e, rules name = some e ∧ Derives rules e text := by
  constructor
  · intro h
    cases h with
    | rule hrule h => exact ⟨_, hrule, h⟩
  · rintro ⟨e, hrule, h⟩
    exact .rule hrule h

/-- A rule stands for what its body stands for. -/
theorem derives_rule_of {name : N} (hrule : rules name = some e) :
    Derives rules (.rule name) text ↔ Derives rules e text := by
  rw [derives_rule, hrule]
  simp

@[simp] theorem derives_seq :
    Derives rules (.seq e e') text ↔
      ∃ s t, Derives rules e s ∧ Derives rules e' t ∧ text = s ++ t := by
  constructor
  · intro h
    cases h with
    | seq h h' => exact ⟨_, _, h, h', rfl⟩
  · rintro ⟨s, t, h, h', rfl⟩
    exact .seq h h'

@[simp] theorem derives_alt :
    Derives rules (.alt e e') text ↔ Derives rules e text ∨ Derives rules e' text := by
  constructor
  · intro h
    cases h with
    | altLeft h => exact Or.inl h
    | altRight h => exact Or.inr h
  · rintro (h | h)
    · exact .altLeft h
    · exact .altRight h

@[simp] theorem derives_group : Derives rules (.group e) text ↔ Derives rules e text := by
  constructor
  · intro h
    cases h with
    | group h => exact h
  · exact .group

@[simp] theorem derives_opt :
    Derives rules (.opt e) text ↔ text = [] ∨ Derives rules e text := by
  constructor
  · intro h
    cases h with
    | optNone => exact Or.inl rfl
    | optSome h => exact Or.inr h
  · rintro (rfl | h)
    · exact .optNone
    · exact .optSome h

@[simp] theorem derives_plus :
    Derives rules (.plus e) text ↔
      ∃ s t, Derives rules e s ∧ Derives rules (.star e) t ∧ text = s ++ t := by
  constructor
  · intro h
    cases h with
    | plus h h' => exact ⟨_, _, h, h', rfl⟩
  · rintro ⟨s, t, h, h', rfl⟩
    exact .plus h h'

/-- An invariant of repetitions: it holds of nothing, and one more text keeps it. -/
theorem Derives.star_induction {P : Text → Prop} (h : Derives rules (.star e) text) (hnil : P [])
    (hcons : ∀ s t, Derives rules e s → Derives rules (.star e) t → P t → P (s ++ t)) : P text := by
  generalize hstar : Expr.star e = body at h
  induction h with
  | starNil => exact hnil
  | starCons hs ht _ ih =>
    cases hstar
    exact hcons _ _ hs ht (ih rfl)
  | lit => cases hstar
  | set => cases hstar
  | rule => cases hstar
  | seq => cases hstar
  | altLeft => cases hstar
  | altRight => cases hstar
  | group => cases hstar
  | optNone => cases hstar
  | optSome => cases hstar
  | plus => cases hstar

/-- A repetition of single characters is a run of them. -/
theorem derives_star_chars {p : Char → Prop}
    (he : ∀ s, Derives rules e s ↔ ∃ c, p c ∧ s = [c]) :
    Derives rules (.star e) text ↔ ∀ c ∈ text, p c := by
  constructor
  · intro h
    apply h.star_induction (P := fun text => ∀ c ∈ text, p c)
    · intro c hc
      cases hc
    · intro s t hs _ ih
      obtain ⟨c, hc, rfl⟩ := (he s).mp hs
      simpa using ⟨hc, ih⟩
  · intro h
    induction text with
    | nil => exact .starNil
    | cons c text ih =>
      rw [List.forall_mem_cons] at h
      exact .starCons ((he [c]).mpr ⟨c, h.1, rfl⟩) (ih h.2)

theorem derives_seqs {es : List (Expr N)} :
    Derives rules (seqs e es) text ↔ DerivesAll rules (e :: es) text := by
  induction es generalizing e text with
  | nil => simp [seqs, DerivesAll]
  | cons e' es ih =>
    rw [seqs, derives_seq, DerivesAll]
    simp only [ih]

/-- Parts one after another are a split of the text. -/
theorem derivesAll_append {es es' : List (Expr N)} :
    DerivesAll rules (es ++ es') text ↔
      ∃ s t, DerivesAll rules es s ∧ DerivesAll rules es' t ∧ text = s ++ t := by
  induction es generalizing text with
  | nil => simp [DerivesAll]
  | cons e es ih =>
    rw [List.cons_append, DerivesAll]
    simp only [ih, DerivesAll]
    constructor
    · rintro ⟨s, _, he, ⟨t, u, ht, hu, rfl⟩, rfl⟩
      exact ⟨s ++ t, u, ⟨s, t, he, ht, rfl⟩, hu, by rw [List.append_assoc]⟩
    · rintro ⟨_, u, ⟨s, t, he, ht, rfl⟩, hu, rfl⟩
      exact ⟨s, t ++ u, he, ⟨t, u, ht, hu, rfl⟩, by rw [List.append_assoc]⟩

theorem derivesAll_lit {quoted made : Text} (h : unquote quoted = some made) {es : List (Expr N)} :
    DerivesAll rules (.lit quoted :: es) text ↔ ∃ t, DerivesAll rules es t ∧ text = made ++ t := by
  simp [DerivesAll, h]

theorem derives_alts {es : List (Expr N)} :
    Derives rules (alts e es) text ↔ ∃ e' ∈ e :: es, Derives rules e' text := by
  induction es generalizing e with
  | nil => simp [alts]
  | cons e' es ih => simp [alts, ih]

end

/-! ### Literals -/

/-- A character that stands for itself. -/
theorem unquote_plain {c : Char} (hquote : c ≠ '"') (hslash : c ≠ '\\') (rest : Text) :
    unquote (c :: rest) = (unquote rest).map (c :: ·) := by
  rw [unquote.eq_def]
  split
  · rename_i heq
    cases heq
  · rename_i heq
    exact absurd (List.head_eq_of_cons_eq heq) hquote
  · rename_i heq
    exact absurd (List.head_eq_of_cons_eq heq) hslash
  · rename_i heq
    exact absurd (List.head_eq_of_cons_eq heq) hslash
  · rename_i heq
    cases heq
    rfl

theorem unquote_append {quoted made : Text} (h : unquote quoted = some made) (rest : Text) :
    unquote (quoted ++ rest) = (unquote rest).map (made ++ ·) := by
  fun_induction unquote quoted generalizing made with
  | case1 =>
    cases h
    simp
  | case2 => cases h
  | case3 => cases h
  | case4 c tail c' hc ih =>
    rw [Option.map_eq_some_iff] at h
    obtain ⟨made', hmade, rfl⟩ := h
    simp [unquote, hc, ih hmade, Function.comp_def]
  | case5 => cases h
  | case6 c tail hquote hslash hend ih =>
    rw [Option.map_eq_some_iff] at h
    obtain ⟨made', hmade, rfl⟩ := h
    have hne : c ≠ '\\' := by
      rintro rfl
      cases tail with
      | nil => exact hend rfl rfl
      | cons d tail => exact hslash d tail rfl rfl
    rw [List.cons_append, unquote_plain hquote hne, ih hmade, Option.map_map]
    rfl

/-! ### Rules that keep to themselves -/

/-- The rules an expression mentions. -/
def Expr.names : Expr N → List N
  | .lit _ => []
  | .set _ _ => []
  | .rule name => [name]
  | .seq e e' => e.names ++ e'.names
  | .alt e e' => e.names ++ e'.names
  | .group e => e.names
  | .opt e => e.names
  | .star e => e.names
  | .plus e => e.names

/-- Rules that mention no others mean the same beside any others. -/
theorem Derives.transfer {rules rules' : N → Option (Expr N)} {S : N → Prop}
    (hsame : ∀ name, S name → rules name = rules' name)
    (hclosed : ∀ name e, S name → rules name = some e → ∀ name' ∈ e.names, S name')
    {e : Expr N} {text : Text} (h : Derives rules e text) (he : ∀ name ∈ e.names, S name) :
    Derives rules' e text := by
  induction h with
  | lit h => exact .lit h
  | set h => exact .set h
  | rule hrule _ ih =>
    have hname := he _ (List.mem_singleton_self _)
    refine .rule ?_ (ih (hclosed _ _ hname hrule))
    rw [← hsame _ hname]
    exact hrule
  | seq _ _ ih ih' =>
    simp only [Expr.names, List.mem_append, or_imp, forall_and] at he
    exact .seq (ih he.1) (ih' he.2)
  | altLeft _ ih =>
    simp only [Expr.names, List.mem_append, or_imp, forall_and] at he
    exact .altLeft (ih he.1)
  | altRight _ ih =>
    simp only [Expr.names, List.mem_append, or_imp, forall_and] at he
    exact .altRight (ih he.2)
  | group _ ih => exact .group (ih he)
  | optNone => exact .optNone
  | optSome _ ih => exact .optSome (ih he)
  | starNil => exact .starNil
  | starCons _ _ ih ih' => exact .starCons (ih he) (ih' he)
  | plus _ _ ih ih' => exact .plus (ih he) (ih' he)

theorem derives_congr {rules rules' : N → Option (Expr N)} {S : N → Prop}
    (hsame : ∀ name, S name → rules name = rules' name)
    (hclosed : ∀ name e, S name → rules name = some e → ∀ name' ∈ e.names, S name')
    {e : Expr N} (he : ∀ name ∈ e.names, S name) {text : Text} :
    Derives rules e text ↔ Derives rules' e text := by
  constructor
  · intro h
    exact h.transfer hsame hclosed he
  · intro h
    refine h.transfer (fun name hname => (hsame name hname).symm) ?_ he
    intro name e' hname hrule
    rw [← hsame name hname] at hrule
    exact hclosed name e' hname hrule

end AiDaemon.Gbnf
