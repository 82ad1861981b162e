import AiDaemon.GrammarShape

/-!
# The texts of a shape

`Shape.Accepts` says which texts a shape admits: strings and numbers in the
spelling of the preamble, arrays and objects as parts with commas and blanks
between them, an object with all its required properties and some of the others.
`derives_emit` is that these are the texts the emitted rules stand for.
-/

namespace AiDaemon.Grammar

open Json Gbnf

/-! ### Parts and marks -/

/-- What `ws` stands for. -/
def Blank (text : Text) : Prop := ∀ c ∈ text, c = ' ' ∨ c = '\t' ∨ c = '\n'

/-- A comma and a part, with blanks around the comma. -/
def Comma (P : Text → Prop) (text : Text) : Prop :=
  ∃ w w' s, Blank w ∧ Blank w' ∧ P s ∧ text = w ++ ',' :: (w' ++ s)

/-- A comma and a part for every language of the list. -/
def Tail : List (Text → Prop) → Text → Prop
  | [], text => text = []
  | P :: Ps, text => ∃ s t, Comma P s ∧ Tail Ps t ∧ text = s ++ t

/-- Parts with commas between them. -/
def Joined : List (Text → Prop) → Text → Prop
  | [], text => text = []
  | P :: Ps, text => ∃ s t, P s ∧ Tail Ps t ∧ text = s ++ t

/-- Parts between brackets. -/
def Between (opening closing : Char) (Ps : List (Text → Prop)) (text : Text) : Prop :=
  ∃ w s w', Blank w ∧ Joined Ps s ∧ Blank w' ∧ text = opening :: (w ++ (s ++ (w' ++ [closing])))

/-- A key as it stands, and a value. -/
def Pair (key : Text) (P : Text → Prop) (text : Text) : Prop :=
  ∃ w w' s, Blank w ∧ Blank w' ∧ P s ∧ text = '"' :: (key ++ '"' :: (w ++ ':' :: (w' ++ s)))

theorem tail_append {Ps Qs : List (Text → Prop)} {text : Text} :
    Tail (Ps ++ Qs) text ↔ ∃ s t, Tail Ps s ∧ Tail Qs t ∧ text = s ++ t := by
  induction Ps generalizing text with
  | nil => simp [Tail]
  | cons P Ps ih =>
    rw [List.cons_append, Tail]
    simp only [ih, Tail]
    constructor
    · rintro ⟨s, _, hs, ⟨t, u, ht, hu, rfl⟩, rfl⟩
      exact ⟨s ++ t, u, ⟨s, t, hs, ht, rfl⟩, hu, by rw [List.append_assoc]⟩
    · rintro ⟨_, u, ⟨s, t, hs, ht, rfl⟩, hu, rfl⟩
      exact ⟨s, t ++ u, hs, ⟨t, u, ht, hu, rfl⟩, by rw [List.append_assoc]⟩

/-! ### Strings and numbers of the preamble -/

/-- A run of what `char` stands for. -/
inductive Chars : Text → Prop where
  | nil : Chars []
  | plain {c : Char} {rest : Text} : c ≠ '"' → c ≠ '\\' → Chars rest → Chars (c :: rest)
  | short {c : Char} {rest : Text} :
      c ∈ "\"\\/bfnrt".toList → Chars rest → Chars ('\\' :: c :: rest)
  | unicode {a b c d : Char} {rest : Text} :
      (hexDigit a).isSome → (hexDigit b).isSome → (hexDigit c).isSome → (hexDigit d).isSome →
      Chars rest → Chars ('\\' :: 'u' :: a :: b :: c :: d :: rest)

def Quoted (text : Text) : Prop := ∃ s, Chars s ∧ text = '"' :: (s ++ ['"'])

def Integer (text : Text) : Prop :=
  ∃ sign whole, (sign = [] ∨ sign = ['-']) ∧ IsWhole whole ∧ text = sign ++ whole

def Numeral (text : Text) : Prop :=
  ∃ integer fraction exponent, Integer integer ∧ IsTail fractionMarks fraction ∧
    IsTail exponentMarks exponent ∧ text = integer ++ (fraction ++ exponent)

/-- The rules hold the preamble. -/
def HasPrelude (rules : RuleName → Option Body) : Prop :=
  ∀ rule ∈ preludeRules, rules rule.name = some rule.body

theorem HasPrelude.rule {rules : RuleName → Option Body} (h : HasPrelude rules) (i : Fin 10) :
    rules (preludeRules.get i).name = some (preludeRules.get i).body :=
  h _ (List.get_mem _ _)

section

variable {rules : RuleName → Option Body} (hprelude : HasPrelude rules) {text : Text}

theorem unquote_lit {quoted : String} {made : Text} (h : unquote quoted.toList = some made) :
    Derives rules (lit quoted) text ↔ text = made := by
  rw [lit, derives_lit, h, Option.some.injEq, eq_comm]

theorem inSet_singles {chars : String} {c : Char} :
    inSet false (singles chars) c = true ↔ c ∈ chars.toList := by
  have hsame : ∀ d : Char, d ≤ c ∧ c ≤ d ↔ d = c := by
    intro d
    constructor
    · rintro ⟨hle, hge⟩
      exact Char.le_antisymm hle hge
    · rintro rfl
      exact ⟨Char.le_refl _, Char.le_refl _⟩
  simp [inSet, singles, hsame]

theorem derives_singles {chars : String} :
    Derives rules (.set false (singles chars)) text ↔ ∃ c, c ∈ chars.toList ∧ text = [c] := by
  simp only [derives_set, inSet_singles]

theorem derives_digit : Derives rules digits text ↔ ∃ c : Char, c.isDigit = true ∧ text = [c] := by
  have hset : ∀ c, inSet false [('0', '9')] c = true ↔ c.isDigit = true := by
    intro c
    simp [inSet, Char.isDigit, Char.le_def]
  rw [digits, derives_set]
  simp only [hset]

theorem derives_digits :
    Derives rules (.star digits) text ↔ ∀ c ∈ text, c.isDigit = true :=
  derives_star_chars fun _ => derives_digit

theorem derives_plus_digits :
    Derives rules (.plus digits) text ↔ text ≠ [] ∧ ∀ c ∈ text, c.isDigit = true := by
  rw [derives_plus]
  simp only [derives_digit, derives_digits]
  constructor
  · rintro ⟨_, t, ⟨c, hc, rfl⟩, ht, rfl⟩
    exact ⟨by simp, List.forall_mem_cons.mpr ⟨hc, ht⟩⟩
  · rintro ⟨hne, hdigits⟩
    obtain ⟨c, t, rfl⟩ := List.exists_cons_of_ne_nil hne
    rw [List.forall_mem_cons] at hdigits
    exact ⟨[c], t, ⟨c, hdigits.1, rfl⟩, hdigits.2, rfl⟩

/-- No zero before another digit. -/
theorem derives_whole :
    Derives rules (.alt (lit "0") (.seq (.set false [('1', '9')]) (.star digits))) text ↔
      IsWhole text := by
  have hzero : Derives rules (lit "0") text ↔ text = ['0'] := unquote_lit rfl
  have hset : ∀ c, inSet false [('1', '9')] c = true ↔ c.isDigit = true ∧ c ≠ '0' := by
    intro c
    have hle : '1' ≤ c ↔ '0' ≤ c ∧ c ≠ '0' := by
      rw [Char.le_def, Char.le_def, UInt32.le_iff_toNat_le, UInt32.le_iff_toNat_le, ne_eq,
        ← Char.val_inj, ← UInt32.toNat_inj]
      have hone : ('1' : Char).val.toNat = 49 := rfl
      have hnull : ('0' : Char).val.toNat = 48 := rfl
      omega
    simp [inSet, Char.isDigit, Char.le_def]
    tauto
  rw [derives_alt, hzero, derives_seq]
  simp only [derives_set, hset, derives_digits]
  constructor
  · rintro (rfl | ⟨_, t, ⟨c, ⟨hdigit, hne⟩, rfl⟩, ht, rfl⟩)
    · exact ⟨by simp, by simp, Or.inr rfl⟩
    · refine ⟨by simp, List.forall_mem_cons.mpr ⟨hdigit, ht⟩, Or.inl ?_⟩
      simpa using hne
  · rintro ⟨hne, hdigits, hlead⟩
    obtain ⟨c, t, rfl⟩ := List.exists_cons_of_ne_nil hne
    rw [List.forall_mem_cons] at hdigits
    by_cases hc : c = '0'
    · subst hc
      rcases hlead with hlead | hlead
      · exact absurd rfl hlead
      · left
        simpa using hlead
    · exact Or.inr ⟨[c], t, ⟨c, ⟨hdigits.1, hc⟩, rfl⟩, hdigits.2, rfl⟩

theorem derives_fraction :
    Derives rules (.opt (.group (.seq (lit ".") (.plus digits)))) text ↔
      IsTail fractionMarks text := by
  have hdot : ∀ t, Derives rules (lit ".") t ↔ t = ['.'] := fun t => unquote_lit rfl
  rw [derives_opt, derives_group, derives_seq]
  simp only [hdot, derives_plus_digits]
  constructor
  · rintro (rfl | ⟨_, t, rfl, ⟨hne, ht⟩, rfl⟩)
    · exact Or.inl rfl
    · exact Or.inr ⟨['.'], by decide, t, rfl, hne, ht⟩
  · rintro (rfl | ⟨mark, hmark, t, rfl, hne, ht⟩)
    · exact Or.inl rfl
    · cases List.mem_singleton.mp hmark
      exact Or.inr ⟨_, t, rfl, ⟨hne, ht⟩, rfl⟩

theorem derives_exponent :
    Derives rules (.opt (.group (seqs (.set false (singles "eE"))
      [.opt (.set false (singles "-+")), .plus digits]))) text ↔ IsTail exponentMarks text := by
  rw [derives_opt, derives_group, derives_seqs]
  simp only [DerivesAll, derives_singles, derives_opt, derives_plus_digits]
  constructor
  · rintro (rfl | ⟨_, _, ⟨c, hc, rfl⟩, ⟨s, _, hs, ⟨t, _, ⟨hne, ht⟩, rfl, rfl⟩, rfl⟩, rfl⟩)
    · exact Or.inl rfl
    · refine Or.inr ⟨c :: s, ?_, t, by simp, hne, ht⟩
      have hmark : c = 'e' ∨ c = 'E' := by simpa using hc
      have hsign : s = [] ∨ s = ['-'] ∨ s = ['+'] := by
        rcases hs with rfl | ⟨d, hd, rfl⟩
        · exact Or.inl rfl
        · simpa using hd
      rcases hmark with rfl | rfl
      · rcases hsign with rfl | rfl | rfl
        · decide
        · decide
        · decide
      · rcases hsign with rfl | rfl | rfl
        · decide
        · decide
        · decide
  · rintro (rfl | ⟨mark, hmark, t, rfl, hne, ht⟩)
    · exact Or.inl rfl
    · have hsplit : ∃ c s, mark = c :: s ∧ c ∈ "eE".toList ∧
          (s = [] ∨ ∃ d, d ∈ "-+".toList ∧ s = [d]) := by
        simp only [exponentMarks, List.mem_cons, List.not_mem_nil, or_false] at hmark
        rcases hmark with rfl | rfl | rfl | rfl | rfl | rfl
        · exact ⟨'e', [], rfl, by decide, Or.inl rfl⟩
        · exact ⟨'E', [], rfl, by decide, Or.inl rfl⟩
        · exact ⟨'e', ['+'], rfl, by decide, Or.inr ⟨'+', by decide, rfl⟩⟩
        · exact ⟨'e', ['-'], rfl, by decide, Or.inr ⟨'-', by decide, rfl⟩⟩
        · exact ⟨'E', ['+'], rfl, by decide, Or.inr ⟨'+', by decide, rfl⟩⟩
        · exact ⟨'E', ['-'], rfl, by decide, Or.inr ⟨'-', by decide, rfl⟩⟩
      obtain ⟨c, s, rfl, hc, hs⟩ := hsplit
      exact Or.inr ⟨[c], s ++ t, ⟨c, hc, rfl⟩, ⟨s, t, hs, ⟨t, [], ⟨hne, ht⟩, rfl, by simp⟩,
        rfl⟩, rfl⟩

include hprelude

theorem derives_ws : Derives rules ws text ↔ Blank text := by
  have hrule : rules .ws = some (.star (.set false (singles " \t\n"))) := hprelude.rule 0
  rw [ws, derives_rule_of hrule, derives_star_chars fun s => derives_singles]
  simp [Blank]

theorem derives_hex : Derives rules (.rule .hex) text ↔ ∃ c, (hexDigit c).isSome ∧ text = [c] := by
  have hrule : rules .hex = some (.set false [('0', '9'), ('a', 'f'), ('A', 'F')]) :=
    hprelude.rule 3
  have hset : ∀ c, inSet false [('0', '9'), ('a', 'f'), ('A', 'F')] c = true ↔
      (hexDigit c).isSome = true := by
    intro c
    unfold hexDigit
    split_ifs with hdigit hlower hupper
    · simp [inSet, hdigit]
    · simp [inSet, hlower]
    · simp [inSet, hupper]
    · simp only [not_and, Char.not_le] at hdigit hlower hupper
      simpa [inSet] using ⟨hdigit, hlower, hupper⟩
  rw [derives_rule_of hrule, derives_set]
  simp only [hset]

theorem derives_char : Derives rules (.rule .char) text ↔
    (∃ c, c ≠ '"' ∧ c ≠ '\\' ∧ text = [c]) ∨
    (∃ c, c ∈ "\"\\/bfnrt".toList ∧ text = ['\\', c]) ∨
    ∃ a b c d, ((hexDigit a).isSome ∧ (hexDigit b).isSome ∧ (hexDigit c).isSome ∧
      (hexDigit d).isSome) ∧ text = ['\\', 'u', a, b, c, d] := by
  have hrule : rules .char = some (.alt (.set true (singles "\"\\"))
      (.seq (lit "\\\\") (.group (.alt (.set false (singles "\"\\/bfnrt"))
        (seqs (lit "u") [.rule .hex, .rule .hex, .rule .hex, .rule .hex]))))) := hprelude.rule 2
  have hset : ∀ c, inSet true (singles "\"\\") c = true ↔ c ≠ '"' ∧ c ≠ '\\' := by
    intro c
    have hflip : inSet true (singles "\"\\") c = !inSet false (singles "\"\\") c := by
      simp [inSet]
    have hin : inSet false (singles "\"\\") c = true ↔ c ∈ "\"\\".toList := inSet_singles
    rw [hflip, Bool.not_eq_true', ← Bool.not_eq_true, hin]
    simp
  have hhex : ∀ t, Derives rules (.rule .hex) t ↔ ∃ c, (hexDigit c).isSome ∧ t = [c] :=
    fun t => derives_hex hprelude
  have hunicode :
    ∀ t, Derives rules (seqs (lit "u") [.rule .hex, .rule .hex, .rule .hex, .rule .hex]) t ↔
      ∃ a b c d, ((hexDigit a).isSome ∧ (hexDigit b).isSome ∧ (hexDigit c).isSome ∧
        (hexDigit d).isSome) ∧ t = ['u', a, b, c, d] := by
    intro t
    have hu : unquote "u".toList = some ['u'] := rfl
    rw [derives_seqs, lit, derivesAll_lit hu]
    simp only [DerivesAll, hhex]
    constructor
    · rintro ⟨_, ⟨_, _, ⟨a, ha, rfl⟩, ⟨_, _, ⟨b, hb, rfl⟩, ⟨_, _, ⟨c, hc, rfl⟩,
        ⟨_, _, ⟨d, hd, rfl⟩, rfl, rfl⟩, rfl⟩, rfl⟩, rfl⟩, rfl⟩
      exact ⟨a, b, c, d, ⟨ha, hb, hc, hd⟩, rfl⟩
    · rintro ⟨a, b, c, d, ⟨ha, hb, hc, hd⟩, rfl⟩
      exact ⟨_, ⟨_, _, ⟨a, ha, rfl⟩, ⟨_, _, ⟨b, hb, rfl⟩, ⟨_, _, ⟨c, hc, rfl⟩,
        ⟨_, _, ⟨d, hd, rfl⟩, rfl, rfl⟩, rfl⟩, rfl⟩, rfl⟩, rfl⟩
  have hslash : ∀ t, Derives rules (lit "\\\\") t ↔ t = ['\\'] := fun t => unquote_lit rfl
  rw [derives_rule_of hrule, derives_alt, derives_set, derives_seq]
  simp only [hset, derives_group, derives_alt, hunicode, derives_singles, hslash]
  constructor
  · rintro (⟨c, ⟨hquote, hslash⟩, rfl⟩ | ⟨_, _, rfl, (⟨c, hc, rfl⟩ | ⟨a, b, c, d, hhex, rfl⟩), rfl⟩)
    · exact Or.inl ⟨c, hquote, hslash, rfl⟩
    · exact Or.inr (Or.inl ⟨c, hc, rfl⟩)
    · exact Or.inr (Or.inr ⟨a, b, c, d, hhex, rfl⟩)
  · rintro (⟨c, hquote, hslash, rfl⟩ | ⟨c, hc, rfl⟩ | ⟨a, b, c, d, hhex, rfl⟩)
    · exact Or.inl ⟨c, ⟨hquote, hslash⟩, rfl⟩
    · exact Or.inr ⟨_, _, rfl, Or.inl ⟨c, hc, rfl⟩, rfl⟩
    · exact Or.inr ⟨_, _, rfl, Or.inr ⟨a, b, c, d, hhex, rfl⟩, rfl⟩

theorem derives_chars : Derives rules (.star (.rule .char)) text ↔ Chars text := by
  constructor
  · intro h
    refine h.star_induction .nil fun s t hs _ ht => ?_
    rcases (derives_char hprelude).mp hs with ⟨c, hquote, hslash, rfl⟩ | ⟨c, hc, rfl⟩ |
      ⟨a, b, c, d, ⟨ha, hb, hc, hd⟩, rfl⟩
    · exact .plain hquote hslash ht
    · exact .short hc ht
    · exact .unicode ha hb hc hd ht
  · intro h
    have hchar : ∀ {s}, _ → Derives rules (.rule .char) s := fun {s} => (derives_char hprelude).mpr
    induction h with
    | nil => exact .starNil
    | plain hquote hslash _ ih =>
      exact .starCons (s := [_]) (hchar (Or.inl ⟨_, hquote, hslash, rfl⟩)) ih
    | short hc _ ih =>
      exact .starCons (s := [_, _]) (hchar (Or.inr (Or.inl ⟨_, hc, rfl⟩))) ih
    | unicode ha hb hc hd _ ih =>
      exact .starCons (s := [_, _, _, _, _, _])
        (hchar (Or.inr (Or.inr ⟨_, _, _, _, ⟨ha, hb, hc, hd⟩, rfl⟩))) ih

theorem derives_string : Derives rules (.rule .string) text ↔ Quoted text := by
  have hrule : rules .string = some (seqs (lit "\\\"") [.star (.rule .char), lit "\\\""]) :=
    hprelude.rule 1
  have hquote : ∀ t, Derives rules (lit "\\\"") t ↔ t = ['"'] := fun t => unquote_lit rfl
  have hchars : ∀ t, Derives rules (.star (.rule .char)) t ↔ Chars t := fun t =>
    derives_chars hprelude
  rw [derives_rule_of hrule, derives_seqs]
  simp only [DerivesAll, hquote, hchars]
  constructor
  · rintro ⟨_, _, rfl, ⟨s, _, hs, ⟨_, _, rfl, rfl, rfl⟩, rfl⟩, rfl⟩
    exact ⟨s, hs, rfl⟩
  · rintro ⟨s, hs, rfl⟩
    exact ⟨_, _, rfl, ⟨s, _, hs, ⟨_, _, rfl, rfl, rfl⟩, rfl⟩, rfl⟩

theorem derives_integer : Derives rules (.rule .integer) text ↔ Integer text := by
  have hrule : rules .integer = some (.seq (.opt (lit "-"))
      (.group (.alt (lit "0") (.seq (.set false [('1', '9')]) (.star digits))))) := hprelude.rule 4
  have hminus : ∀ t, Derives rules (lit "-") t ↔ t = ['-'] := fun t => unquote_lit rfl
  rw [derives_rule_of hrule, derives_seq]
  simp only [derives_opt, derives_group, derives_whole, hminus]
  constructor
  · rintro ⟨sign, whole, hsign, hwhole, rfl⟩
    exact ⟨sign, whole, hsign, hwhole, rfl⟩
  · rintro ⟨sign, whole, hsign, hwhole, rfl⟩
    exact ⟨sign, whole, hsign, hwhole, rfl⟩

theorem derives_number : Derives rules (.rule .number) text ↔ Numeral text := by
  have hrule : rules .number = some (seqs (.rule .integer)
      [.opt (.group (.seq (lit ".") (.plus digits))),
        .opt (.group (seqs (.set false (singles "eE"))
          [.opt (.set false (singles "-+")), .plus digits]))]) := hprelude.rule 5
  have hinteger : ∀ t, Derives rules (.rule .integer) t ↔ Integer t := fun t =>
    derives_integer hprelude
  rw [derives_rule_of hrule, derives_seqs]
  simp only [DerivesAll, hinteger, derives_fraction, derives_exponent]
  constructor
  · rintro ⟨integer, _, hinteger, ⟨fraction, _, hfraction, ⟨exponent, _, hexponent, rfl, rfl⟩,
      rfl⟩, rfl⟩
    exact ⟨integer, fraction, exponent, hinteger, hfraction, hexponent, by simp⟩
  · rintro ⟨integer, fraction, exponent, hinteger, hfraction, hexponent, rfl⟩
    exact ⟨integer, _, hinteger, ⟨fraction, _, hfraction, ⟨exponent, [], hexponent, rfl,
      by simp⟩, rfl⟩,
      rfl⟩

theorem derives_boolean :
    Derives rules (.rule .boolean) text ↔ text = "true".toList ∨ text = "false".toList := by
  have hrule : rules .boolean = some (.alt (lit "true") (lit "false")) := hprelude.rule 6
  have htrue : Derives rules (lit "true") text ↔ text = "true".toList := unquote_lit rfl
  have hfalse : Derives rules (lit "false") text ↔ text = "false".toList := unquote_lit rfl
  rw [derives_rule_of hrule, derives_alt, htrue, hfalse]

/-! ### Escaped literals -/

omit hprelude in
theorem escapeGbnf_cons (c : Char) (text : Text) :
    escapeGbnf (c :: text) =
      (if c = '\\' then "\\\\".toList else if c = '"' then "\\\"".toList else [c]) ++
        escapeGbnf text := by
  unfold escapeGbnf replaceChar
  rw [List.flatMap_cons, List.flatMap_append]
  congr 1
  split_ifs with hslash hquote
  · rfl
  · simp [hquote]
  · simp [hquote]

omit hprelude in
/-- A literal stands for the text that was escaped into it. -/
theorem unquote_escapeGbnf (text : Text) : unquote (escapeGbnf text) = some text := by
  induction text with
  | nil => rfl
  | cons c text ih =>
    rw [escapeGbnf_cons]
    split_ifs with hslash hquote
    · subst hslash
      have happend : unquote ("\\\\".toList ++ escapeGbnf text) = _ := unquote_append rfl _
      rw [happend, ih]
      rfl
    · subst hquote
      have happend : unquote ("\\\"".toList ++ escapeGbnf text) = _ := unquote_append rfl _
      rw [happend, ih]
      rfl
    · rw [List.singleton_append, unquote_plain hquote hslash, ih]
      rfl

omit hprelude in
theorem unquote_key (key : Text) :
    unquote ("\\\"".toList ++ escapeGbnf key ++ "\\\"".toList) = some ('"' :: (key ++ ['"'])) := by
  have hquote : ∀ rest, unquote ("\\\"".toList ++ rest) = (unquote rest).map (['"'] ++ ·) :=
    unquote_append rfl
  have hend : unquote "\\\"".toList = some ['"'] := rfl
  rw [List.append_assoc, hquote, unquote_append (unquote_escapeGbnf key), hend]
  rfl

/-! ### Objects and arrays -/

theorem derives_comma {part : Body} :
    DerivesAll rules [ws, lit ",", ws, part] text ↔ Comma (Derives rules part) text := by
  have hws : ∀ t, Derives rules ws t ↔ Blank t := fun t => derives_ws hprelude
  have hcomma : ∀ t, Derives rules (lit ",") t ↔ t = [','] := fun t => unquote_lit rfl
  simp only [DerivesAll, hws, hcomma]
  constructor
  · rintro ⟨w, _, hw, ⟨_, _, rfl, ⟨w', _, hw', ⟨s, _, hs, rfl, rfl⟩, rfl⟩, rfl⟩, rfl⟩
    exact ⟨w, w', s, hw, hw', hs, by simp⟩
  · rintro ⟨w, w', s, hw, hw', hs, rfl⟩
    exact ⟨w, _, hw, ⟨_, _, rfl, ⟨w', _, hw', ⟨s, [], hs, rfl, rfl⟩, rfl⟩, rfl⟩, by simp⟩

theorem derives_later {part : Body} :
    Derives rules (later part) text ↔ text = [] ∨ Comma (Derives rules part) text := by
  rw [later, derives_opt, derives_group, derives_seqs, derives_comma hprelude]

theorem derivesAll_pair {quoted key : Text} (hkey : unquote quoted = some ('"' :: (key ++ ['"'])))
    {value : Body} :
    DerivesAll rules [.lit quoted, ws, lit ":", ws, value] text ↔
      Pair key (Derives rules value) text := by
  have hws : ∀ t, Derives rules ws t ↔ Blank t := fun t => derives_ws hprelude
  have hcolon : ∀ t, Derives rules (lit ":") t ↔ t = [':'] := fun t => unquote_lit rfl
  rw [derivesAll_lit hkey]
  simp only [DerivesAll, hws, hcolon]
  constructor
  · rintro ⟨_, ⟨w, _, hw, ⟨_, _, rfl, ⟨w', _, hw', ⟨s, _, hs, rfl, rfl⟩, rfl⟩, rfl⟩, rfl⟩, rfl⟩
    exact ⟨w, w', s, hw, hw', hs, by simp⟩
  · rintro ⟨w, w', s, hw, hw', hs, rfl⟩
    exact ⟨_, ⟨w, _, hw, ⟨_, _, rfl, ⟨w', _, hw', ⟨s, [], hs, rfl, rfl⟩, rfl⟩, rfl⟩, rfl⟩, by simp⟩

theorem derives_pair {key : Text} {value : Body} :
    Derives rules (pair key value) text ↔ Pair key (Derives rules value) text := by
  rw [pair, derives_seqs, derivesAll_pair hprelude (unquote_key key)]

/-- Required parts, each behind a comma. -/
theorem derivesAll_required {parts : List Body} :
    DerivesAll rules (parts.flatMap fun part => [ws, lit ",", ws, part]) text ↔
      Tail (parts.map (Derives rules)) text := by
  induction parts generalizing text with
  | nil => rfl
  | cons part parts ih =>
    rw [List.flatMap_cons, derivesAll_append, List.map_cons, Tail]
    simp only [ih, derives_comma hprelude]

/-- Optional parts: some of them are there. -/
theorem derivesAll_later {parts : List Body} :
    DerivesAll rules (parts.map later) text ↔
      ∃ kept : List Body, kept.Sublist parts ∧ Tail (kept.map (Derives rules)) text := by
  induction parts generalizing text with
  | nil => simp [DerivesAll, Tail]
  | cons part parts ih =>
    rw [List.map_cons, DerivesAll]
    simp only [derives_later hprelude, ih]
    constructor
    · rintro ⟨s, t, (rfl | hs), ⟨kept, hkept, ht⟩, rfl⟩
      · exact ⟨kept, hkept.cons _, ht⟩
      · exact ⟨part :: kept, hkept.cons_cons _, s, t, hs, ht, rfl⟩
    · rintro ⟨kept, hkept, htail⟩
      cases hkept with
      | cons _ hkept => exact ⟨[], text, Or.inl rfl, ⟨kept, hkept, htail⟩, rfl⟩
      | cons_cons _ hkept =>
        obtain ⟨s, t, hs, ht, rfl⟩ := htail
        exact ⟨s, t, Or.inr hs, ⟨_, hkept, ht⟩, rfl⟩

/-- The alternatives over which optional part comes first. -/
theorem derives_firstOptional {parts : List Body} :
    (∃ e ∈ firstOptional parts, Derives rules e text) ↔
      ∃ kept : List Body, kept.Sublist parts ∧ kept ≠ [] ∧
      Joined (kept.map (Derives rules)) text := by
  induction parts with
  | nil => simp [firstOptional]
  | cons part parts ih =>
    rw [firstOptional, List.exists_mem_cons_iff, ih, derives_seqs, DerivesAll]
    simp only [derivesAll_later hprelude]
    constructor
    · rintro (⟨s, t, hs, ⟨kept, hkept, ht⟩, rfl⟩ | ⟨kept, hkept, hne, hjoined⟩)
      · exact ⟨part :: kept, hkept.cons_cons _, by simp, s, t, hs, ht, rfl⟩
      · exact ⟨kept, hkept.cons _, hne, hjoined⟩
    · rintro ⟨kept, hkept, hne, hjoined⟩
      cases hkept with
      | cons _ hkept => exact Or.inr ⟨kept, hkept, hne, hjoined⟩
      | cons_cons _ hkept =>
        obtain ⟨s, t, hs, ht, rfl⟩ := hjoined
        exact Or.inl ⟨s, t, hs, ⟨_, hkept, ht⟩, rfl⟩

/-- What stands between brackets: the blanks and the marks are the same for every body. -/
theorem derives_between {opening closing : Char} {opened closed inner : Body} {P : Text → Prop}
    (hopened : ∀ t, Derives rules opened t ↔ t = [opening])
    (hclosed : ∀ t, Derives rules closed t ↔ t = [closing])
    (hinner : ∀ t, Derives rules inner t ↔ P t) :
    Derives rules (seqs opened [ws, inner, ws, closed]) text ↔
      ∃ w s w', Blank w ∧ P s ∧ Blank w' ∧ text = opening :: (w ++ (s ++ (w' ++ [closing]))) := by
  have hws : ∀ t, Derives rules ws t ↔ Blank t := fun t => derives_ws hprelude
  rw [derives_seqs]
  simp only [DerivesAll, hws, hopened, hclosed, hinner]
  constructor
  · rintro ⟨_, _, rfl, ⟨w, _, hw, ⟨s, _, hs, ⟨w', _, hw', ⟨_, _, rfl, rfl, rfl⟩, rfl⟩, rfl⟩,
      rfl⟩, rfl⟩
    exact ⟨w, s, w', hw, hs, hw', by simp⟩
  · rintro ⟨w, s, w', hw, hs, hw', rfl⟩
    exact ⟨_, _, rfl, ⟨w, _, hw, ⟨s, _, hs, ⟨w', _, hw', ⟨_, [], rfl, rfl, rfl⟩, rfl⟩, rfl⟩, rfl⟩,
      by simp⟩

theorem derives_commas {item : Body} :
    Derives rules (.star (.group (seqs ws [lit ",", ws, item]))) text ↔
      ∃ n, Tail (List.replicate n (Derives rules item)) text := by
  have hcomma : ∀ t, Derives rules (.group (seqs ws [lit ",", ws, item])) t ↔
      Comma (Derives rules item) t := by
    intro t
    rw [derives_group, derives_seqs, derives_comma hprelude]
  constructor
  · intro h
    apply h.star_induction (P := fun t => ∃ n, Tail (List.replicate n (Derives rules item)) t)
    · exact ⟨0, rfl⟩
    · rintro s t hs - ⟨n, ht⟩
      exact ⟨n + 1, s, t, (hcomma s).mp hs, ht, rfl⟩
  · rintro ⟨n, h⟩
    induction n generalizing text with
    | zero =>
      cases h
      exact .starNil
    | succ n ih =>
      obtain ⟨s, t, hs, ht, rfl⟩ := h
      exact .starCons ((hcomma s).mpr hs) (ih ht)

theorem derives_bracketed {item : Body} :
    Derives rules (bracketed (lit "[") item (lit "]")) text ↔
      ∃ n, Between '[' ']' (List.replicate n (Derives rules item)) text := by
  have hinner : ∀ t,
      Derives rules (.opt (.group (.seq item (.star (.group (seqs ws [lit ",", ws, item])))))) t ↔
        ∃ n, Joined (List.replicate n (Derives rules item)) t := by
    intro t
    rw [derives_opt, derives_group, derives_seq]
    simp only [derives_commas hprelude]
    constructor
    · rintro (rfl | ⟨s, u, hs, ⟨n, hu⟩, rfl⟩)
      · exact ⟨0, rfl⟩
      · exact ⟨n + 1, s, u, hs, hu, rfl⟩
    · rintro ⟨n, h⟩
      cases n with
      | zero => exact Or.inl h
      | succ n =>
        obtain ⟨s, u, hs, hu, rfl⟩ := h
        exact Or.inr ⟨s, u, hs, ⟨n, hu⟩, rfl⟩
  rw [bracketed,
    derives_between hprelude (fun t => unquote_lit rfl) (fun t => unquote_lit rfl) hinner]
  constructor
  · rintro ⟨w, s, w', hw, ⟨n, hs⟩, hw', rfl⟩
    exact ⟨n, w, s, w', hw, hs, hw', rfl⟩
  · rintro ⟨n, w, s, w', hw, hs, hw', rfl⟩
    exact ⟨w, s, w', hw, ⟨n, hs⟩, hw', rfl⟩

omit hprelude in
theorem Blank.append {w w' : Text} (hw : Blank w) (hw' : Blank w') : Blank (w ++ w') := by
  intro c hc
  rcases List.mem_append.mp hc with hc | hc
  · exact hw c hc
  · exact hw' c hc

theorem derives_noParts :
    Derives rules (objectBody [] []) text ↔ Between '\x7b' '\x7d' [] text := by
  have hws : ∀ t, Derives rules ws t ↔ Blank t := fun t => derives_ws hprelude
  have hopened : ∀ t, Derives rules (lit "\x7b") t ↔ t = ['\x7b'] := fun t => unquote_lit rfl
  have hclosed : ∀ t, Derives rules (lit "\x7d") t ↔ t = ['\x7d'] := fun t => unquote_lit rfl
  rw [objectBody, derives_seqs]
  simp only [DerivesAll, hws, hopened, hclosed]
  constructor
  · rintro ⟨_, _, rfl, ⟨w, _, hw, ⟨_, _, rfl, rfl, rfl⟩, rfl⟩, rfl⟩
    exact ⟨w, [], [], hw, rfl, by simp [Blank], by simp⟩
  · rintro ⟨w, s, w', hw, hs, hw', rfl⟩
    cases hs
    exact ⟨_, _, rfl, ⟨w ++ w', _, hw.append hw', ⟨_, [], rfl, rfl, rfl⟩, rfl⟩, by simp⟩

/-- Without required parts there may be none at all. -/
theorem derives_optionalParts {first : Body} {rest : List Body} :
    Derives rules (.opt (.group (alts (seqs first (rest.map later)) (firstOptional rest)))) text ↔
      ∃ kept : List Body, kept.Sublist (first :: rest) ∧
        Joined (kept.map (Derives rules)) text := by
  have hfirst : (∃ e ∈ firstOptional (first :: rest), Derives rules e text) ↔ _ :=
    derives_firstOptional hprelude
  rw [firstOptional] at hfirst
  rw [derives_opt, derives_group, derives_alts, hfirst]
  constructor
  · rintro (rfl | ⟨kept, hkept, -, hjoined⟩)
    · exact ⟨[], List.nil_sublist _, rfl⟩
    · exact ⟨kept, hkept, hjoined⟩
  · rintro ⟨kept, hkept, hjoined⟩
    rcases eq_or_ne kept [] with rfl | hne
    · exact Or.inl hjoined
    · exact Or.inr ⟨kept, hkept, hne, hjoined⟩

/-- What follows the first required part, with the closing brace. -/
theorem derivesAll_parts {rest optional : List Body} :
    DerivesAll rules ((rest.flatMap fun part => [ws, lit ",", ws, part]) ++ optional.map later ++
        [ws, lit "\x7d"]) text ↔
      ∃ kept : List Body, kept.Sublist optional ∧ ∃ s w,
        Tail ((rest ++ kept).map (Derives rules)) s ∧ Blank w ∧ text = s ++ (w ++ ['\x7d']) := by
  have hws : ∀ t, Derives rules ws t ↔ Blank t := fun t => derives_ws hprelude
  have hclosed : ∀ t, Derives rules (lit "\x7d") t ↔ t = ['\x7d'] := fun t => unquote_lit rfl
  rw [derivesAll_append]
  simp only [derivesAll_append, derivesAll_required hprelude, derivesAll_later hprelude]
  simp only [DerivesAll, hws, hclosed]
  constructor
  · rintro ⟨_, _, ⟨s, u, hs, ⟨kept, hkept, hu⟩, rfl⟩, ⟨w, _, hw, ⟨_, _, rfl, rfl, rfl⟩,
      rfl⟩, rfl⟩
    refine ⟨kept, hkept, s ++ u, w, ?_, hw, by simp⟩
    rw [List.map_append, tail_append]
    exact ⟨s, u, hs, hu, rfl⟩
  · rintro ⟨kept, hkept, s, w, hs, hw, rfl⟩
    rw [List.map_append, tail_append] at hs
    obtain ⟨s, u, hs, hu, rfl⟩ := hs
    exact ⟨_, _, ⟨s, u, hs, ⟨kept, hkept, hu⟩, rfl⟩, ⟨w, _, hw, ⟨_, [], rfl, rfl, rfl⟩, rfl⟩,
      by simp⟩

/-- An object has every required part and some of the optional ones. -/
theorem derives_objectBody {required optional : List Body} :
    Derives rules (objectBody required optional) text ↔
      ∃ kept : List Body, kept.Sublist optional ∧
        Between '\x7b' '\x7d' ((required ++ kept).map (Derives rules)) text := by
  have hws : ∀ t, Derives rules ws t ↔ Blank t := fun t => derives_ws hprelude
  have hopened : ∀ t, Derives rules (lit "\x7b") t ↔ t = ['\x7b'] := fun t => unquote_lit rfl
  have hclosed : ∀ t, Derives rules (lit "\x7d") t ↔ t = ['\x7d'] := fun t => unquote_lit rfl
  cases required with
  | nil =>
    cases optional with
    | nil =>
      rw [derives_noParts hprelude]
      constructor
      · intro h
        exact ⟨[], List.nil_sublist _, h⟩
      · rintro ⟨kept, hkept, h⟩
        cases hkept
        exact h
    | cons first rest =>
      rw [objectBody, derives_between hprelude hopened hclosed
        fun t => derives_optionalParts hprelude]
      constructor
      · rintro ⟨w, s, w', hw, ⟨kept, hkept, hs⟩, hw', rfl⟩
        exact ⟨kept, hkept, w, s, w', hw, hs, hw', rfl⟩
      · rintro ⟨kept, hkept, w, s, w', hw, hs, hw', rfl⟩
        exact ⟨w, s, w', hw, ⟨kept, hkept, hs⟩, hw', rfl⟩
  | cons first rest =>
    rw [objectBody, derives_seqs, List.cons_append, List.cons_append, List.cons_append,
      List.cons_append]
    simp only [DerivesAll, derivesAll_parts hprelude, hws, hopened]
    constructor
    · rintro ⟨_, _, rfl, ⟨w, _, hw, ⟨s, _, hs, ⟨kept, hkept, u, w', hu, hw', rfl⟩, rfl⟩, rfl⟩, rfl⟩
      exact ⟨kept, hkept, w, s ++ u, w', hw, ⟨s, u, hs, hu, rfl⟩, hw', by simp⟩
    · rintro ⟨kept, hkept, w, _, w', hw, ⟨s, u, hs, hu, rfl⟩, hw', rfl⟩
      exact ⟨_, _, rfl, ⟨w, _, hw, ⟨s, _, hs, ⟨kept, hkept, u, w', hu, hw', rfl⟩, rfl⟩, rfl⟩,
        by simp⟩

end

/-! ### The preamble by itself -/

theorem find_of_nodup {rules : List Rule} (hnodup : (rules.map Rule.name).Nodup) {rule : Rule}
    (hrule : rule ∈ rules) : find rules rule.name = some rule.body := by
  induction rules with
  | nil => cases hrule
  | cons first rules ih =>
    rw [List.map_cons, List.nodup_cons] at hnodup
    rcases List.mem_cons.mp hrule with rfl | hrule
    · simp [find]
    · have hne : first.name ≠ rule.name := by
        intro hsame
        rw [hsame] at hnodup
        exact hnodup.1 (List.mem_map_of_mem hrule)
      have hfind := ih hnodup.2 hrule
      rw [find] at hfind ⊢
      rwa [List.find?_cons_of_neg (by simpa using hne)]

theorem preludeRules_nodup : (preludeRules.map Rule.name).Nodup := by decide

theorem hasPrelude_find : HasPrelude (find preludeRules) :=
  fun _ hrule => find_of_nodup preludeRules_nodup hrule

/-- The preamble mentions no other rules. -/
theorem preludeRules_closed :
    ∀ rule ∈ preludeRules, ∀ name ∈ rule.body.names, name ∈ preludeRules.map Rule.name := by
  decide

theorem derives_prelude {rules : RuleName → Option Body} (hprelude : HasPrelude rules) {e : Body}
    (he : ∀ name ∈ e.names, name ∈ preludeRules.map Rule.name) :
    Derives rules e = Derives (find preludeRules) e := by
  funext text
  refine propext (derives_congr (S := fun name => name ∈ preludeRules.map Rule.name) ?_ ?_ he)
  · intro name hname
    obtain ⟨rule, hrule, rfl⟩ := List.mem_map.mp hname
    rw [hprelude rule hrule, hasPrelude_find rule hrule]
  · intro name e' hname hrule
    obtain ⟨rule, hmem, rfl⟩ := List.mem_map.mp hname
    rw [hprelude rule hmem, Option.some.injEq] at hrule
    subst hrule
    exact preludeRules_closed rule hmem

/-! ### Shapes -/

section

variable {α β : Type}

def required (fields : List (Field α)) : List (Field α) := fields.filter fun field => field.required

def optional (fields : List (Field α)) : List (Field α) := fields.filter fun field =>
    !field.required

/-- The required fields and some of the others. -/
def Selection (fields chosen : List (Field α)) : Prop :=
  ∃ kept : List (Field α), kept.Sublist (optional fields) ∧ chosen = required fields ++ kept

def Field.map (f : α → β) (field : Field α) : Field β := ⟨field.key, field.required, f field.value⟩

theorem selection_map {f : α → β} {fields : List (Field α)} {chosen : List (Field β)} :
    Selection (fields.map (Field.map f)) chosen ↔
      ∃ chosen', Selection fields chosen' ∧ chosen = chosen'.map (Field.map f) := by
  have hrequired : required (fields.map (Field.map f)) = (required fields).map (Field.map f) := by
    rw [required, List.filter_map]
    rfl
  have hoptional : optional (fields.map (Field.map f)) = (optional fields).map (Field.map f) := by
    rw [optional, List.filter_map]
    rfl
  unfold Selection
  rw [hrequired, hoptional]
  constructor
  · rintro ⟨kept, hkept, rfl⟩
    obtain ⟨kept', hkept', rfl⟩ := List.sublist_map_iff.mp hkept
    exact ⟨_, ⟨kept', hkept', rfl⟩, by rw [List.map_append]⟩
  · rintro ⟨_, ⟨kept', hkept', rfl⟩, rfl⟩
    exact ⟨kept'.map (Field.map f), hkept'.map _, by rw [List.map_append]⟩

end

variable {F : Type} (floats : Floats F)

mutual

/-- The texts of a shape. -/
def Shape.Accepts : Shape F → Text → Prop
  | .any, text => Derives (find preludeRules) (.rule .json) text
  | .anyObject, text => Derives (find preludeRules) (.rule .object) text
  | .choice choice choices, text => ∃ v ∈ choice :: choices, text = write floats v
  | .string, text => Quoted text
  | .integer, text => Integer text
  | .number, text => Numeral text
  | .boolean, text => text = "true".toList ∨ text = "false".toList
  | .null, text => text = "null".toList
  | .array item, text => ∃ n, Between '[' ']' (List.replicate n item.Accepts) text
  | .object fields, text =>
    ∃ chosen, Selection (languages fields) chosen ∧
      Between '\x7b' '\x7d' (chosen.map fun field => Pair field.key field.value) text

def languages : List (Field (Shape F)) → List (Field (Text → Prop))
  | [] => []
  | ⟨key, required, shape⟩ :: fields => ⟨key, required, shape.Accepts⟩ :: languages fields

end

theorem languages_eq_map (fields : List (Field (Shape F))) :
    languages floats fields = fields.map (Field.map (Shape.Accepts floats)) := by
  induction fields with
  | nil => rw [languages, List.map_nil]
  | cons field fields ih =>
    rw [languages, ih]
    rfl

/-- The texts of a field: its name and its value. -/
def Field.Accepts (field : Field (Shape F)) : Text → Prop :=
  Pair field.key (field.value.Accepts floats)

theorem accepts_object {fields : List (Field (Shape F))} {text : Text} :
    (Shape.object fields).Accepts floats text ↔
      ∃ chosen, Selection fields chosen ∧
        Between '\x7b' '\x7d' (chosen.map (Field.Accepts floats)) text := by
  rw [Shape.Accepts, languages_eq_map]
  simp only [selection_map]
  constructor
  · rintro ⟨_, ⟨chosen, hchosen, rfl⟩, hbetween⟩
    rw [List.map_map] at hbetween
    exact ⟨chosen, hchosen, hbetween⟩
  · rintro ⟨chosen, hchosen, hbetween⟩
    refine ⟨_, ⟨chosen, hchosen, rfl⟩, ?_⟩
    rw [List.map_map]
    exact hbetween

variable {floats} {rules : RuleName → Option Body} (hprelude : HasPrelude rules)

include hprelude

theorem derives_emitFields {fields : List (Field (Shape F))}
    (ih : ∀ field ∈ fields, ∀ sub,
      (∀ rule ∈ (field.value.emit floats sub).2.rules, rules rule.name = some rule.body) →
      Derives rules (field.value.emit floats sub).1 = field.value.Accepts floats)
    (sub : SubCompiler)
    (hrules : ∀ rule ∈ (emitFields floats fields sub).2.rules, rules rule.name = some rule.body) :
    (emitFields floats fields sub).1.1.map (Derives rules) =
        (required fields).map (Field.Accepts floats) ∧
      (emitFields floats fields sub).1.2.map (Derives rules) =
        (optional fields).map (Field.Accepts floats) := by
  induction fields generalizing sub with
  | nil =>
    rw [emitFields]
    exact ⟨rfl, rfl⟩
  | cons field fields ihs =>
    obtain ⟨key, isRequired, shape⟩ := field
    rw [List.forall_mem_cons] at ih
    rw [emitFields] at hrules ⊢
    have hrest : ∀ rule ∈ (emitFields floats fields (shape.emit floats sub).2).2.rules,
        rules rule.name = some rule.body := by
      split at hrules
      · exact hrules
      · exact hrules
    have hextends : Extends _ (emitFields floats fields (shape.emit floats sub).2).2 :=
      emitFields_extends floats (fun field _ => emit_extends floats field.value) _
    have hvalue := ih.1 sub fun rule hrule => hrest rule (hextends.subset hrule)
    have hpair : Derives rules (pair key (shape.emit floats sub).1) =
        Field.Accepts floats ⟨key, isRequired, shape⟩ := by
      funext text
      rw [Field.Accepts, ← hvalue]
      exact propext (derives_pair hprelude)
    obtain ⟨hrequired, hoptional⟩ := ihs ih.2 _ hrest
    cases isRequired with
    | true => simp [required, optional, hrequired, hoptional, hpair]
    | false => simp [required, optional, hrequired, hoptional, hpair]

/-- **The rules of a shape** stand for the texts of the shape. -/
theorem derives_emit (shape : Shape F) (sub : SubCompiler)
    (hrules : ∀ rule ∈ (shape.emit floats sub).2.rules, rules rule.name = some rule.body) :
    Derives rules (shape.emit floats sub).1 = shape.Accepts floats := by
  induction shape generalizing sub with
  | any =>
    have hnames : ∀ name ∈ (Expr.rule .json).names, name ∈ preludeRules.map Rule.name := by decide
    rw [Shape.emit]
    exact derives_prelude hprelude hnames
  | anyObject =>
    have hnames : ∀ name ∈ (Expr.rule .object).names, name ∈ preludeRules.map Rule.name := by decide
    rw [Shape.emit]
    exact derives_prelude hprelude hnames
  | choice c cs =>
    funext text
    have hliteral : ∀ v, Derives rules (literal floats v) text ↔ text = write floats v := by
      intro v
      rw [literal, derives_lit, unquote_escapeGbnf, Option.some.injEq, eq_comm]
    rw [Shape.emit, derives_group, derives_alts, ← List.map_cons, Shape.Accepts]
    simp only [List.mem_map, exists_exists_and_eq_and, hliteral]
  | string =>
    funext text
    rw [Shape.emit]
    exact propext (derives_string hprelude)
  | integer =>
    funext text
    rw [Shape.emit]
    exact propext (derives_integer hprelude)
  | number =>
    funext text
    rw [Shape.emit]
    exact propext (derives_number hprelude)
  | boolean =>
    funext text
    rw [Shape.emit]
    exact propext (derives_boolean hprelude)
  | null =>
    funext text
    rw [Shape.emit]
    exact propext (unquote_lit rfl)
  | array item ih =>
    funext text
    rw [Shape.emit] at hrules ⊢
    have hitem := ih sub fun rule hrule => hrules rule ((extends_define _ _ _).subset hrule)
    have hrule := hrules _ (List.mem_append_right _ (List.mem_singleton_self _))
    rw [SubCompiler.define, derives_rule_of hrule, derives_bracketed hprelude, hitem, Shape.Accepts]
  | object fields ih =>
    funext text
    rw [Shape.emit] at hrules ⊢
    have hrule := hrules _ (List.mem_append_right _ (List.mem_singleton_self _))
    obtain ⟨hrequired, hoptional⟩ := derives_emitFields hprelude ih sub fun rule hrule =>
      hrules rule ((extends_define _ _ _).subset hrule)
    rw [SubCompiler.define, derives_rule_of hrule, derives_objectBody hprelude, accepts_object]
    simp only [List.map_append, hrequired]
    refine propext ⟨?_, ?_⟩
    · rintro ⟨kept, hkept, hbetween⟩
      have hsub := hkept.map (Derives rules)
      rw [hoptional] at hsub
      obtain ⟨kept', hkept', hsame⟩ := List.sublist_map_iff.mp hsub
      refine ⟨_, ⟨kept', hkept', rfl⟩, ?_⟩
      rw [List.map_append, ← hsame]
      exact hbetween
    · rintro ⟨_, ⟨kept', hkept', rfl⟩, hbetween⟩
      have hsub := hkept'.map (Field.Accepts floats)
      rw [← hoptional] at hsub
      obtain ⟨kept, hkept, hsame⟩ := List.sublist_map_iff.mp hsub
      refine ⟨kept, hkept, ?_⟩
      rw [List.map_append, hsame] at hbetween
      exact hbetween

end AiDaemon.Grammar
