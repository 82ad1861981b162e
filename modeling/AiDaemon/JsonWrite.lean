import AiDaemon.JsonReads
import Mathlib.Data.List.Induction
import Mathlib.Data.List.Nodup

/-!
# What is written is read

`Reads` is about a text in the middle of another: it is read as a value up to
its end, whatever follows, as long as that does not go on with a number.  Arrays
and objects of such texts are such texts again, white space between the parts
included, and so is what `write` makes of a value (`reads_write`).
-/

namespace AiDaemon.Json

variable {F : Type} {floats : Floats F}

/-! ### Literals of numbers -/

/-- What follows does not go on with a number. -/
def Delimited (rest : Text) : Prop :=
  ∀ c ∈ rest.head?, c.isDigit = false ∧ c ≠ '.' ∧ c ≠ 'e' ∧ c ≠ 'E'

theorem delimited_nil : Delimited [] := by
  intro c hc
  cases hc

theorem delimited_cons {c : Char} (hc : c.isDigit = false ∧ c ≠ '.' ∧ c ≠ 'e' ∧ c ≠ 'E')
    (rest : Text) :
    Delimited (c :: rest) := by
  intro d hd
  cases hd
  exact hc

theorem isWs_cases {c : Char} (h : isWs c = true) : c = ' ' ∨ c = '\n' ∨ c = '\t' ∨ c = '\r' := by
  simpa [isWs, or_assoc] using h

theorem delimited_ws {ws rest : Text} (hws : ∀ c ∈ ws, isWs c = true) (hrest : Delimited rest) :
    Delimited (ws ++ rest) := by
  cases ws with
  | nil => exact hrest
  | cons c ws =>
    refine delimited_cons ?_ _
    rcases isWs_cases (hws c List.mem_cons_self) with rfl | rfl | rfl | rfl
    · decide
    · decide
    · decide
    · decide

/-- The text is the literal of a number, wherever it stands. -/
def Literal (literal : Text) : Prop :=
  ∀ rest, Delimited rest → lexNumber (literal ++ rest) = some (literal, rest)

theorem lexDigits_append {digits rest : Text} (hne : digits ≠ [])
    (hdigits : ∀ c ∈ digits, c.isDigit = true) (hrest : ∀ c ∈ rest.head?, c.isDigit = false) :
    lexDigits (digits ++ rest) = some (digits, rest) := by
  have htake : rest.takeWhile Char.isDigit = [] := by
    cases rest with
    | nil => rfl
    | cons c rest => simp [hrest c rfl]
  have hdrop : rest.dropWhile Char.isDigit = rest := by
    cases rest with
    | nil => rfl
    | cons c rest => simp [hrest c rfl]
  simp only [lexDigits, List.takeWhile_append_of_pos hdigits, List.dropWhile_append_of_pos hdigits,
    htake, hdrop, List.append_nil, hne, if_false]

/-- The whole part of a literal. -/
def IsWhole (whole : Text) : Prop :=
  whole ≠ [] ∧ (∀ c ∈ whole, c.isDigit = true) ∧ (whole.head? ≠ some '0' ∨ whole.length = 1)

/-- A fraction or an exponent, or nothing: digits behind a mark. -/
def IsTail (marks : List Text) (tail : Text) : Prop :=
  tail = [] ∨ ∃ mark ∈ marks, ∃ digits, tail = mark ++ digits ∧ digits ≠ [] ∧
    ∀ c ∈ digits, c.isDigit = true

def fractionMarks : List Text := [['.']]

def exponentMarks : List Text :=
  [['e'], ['E'], ['e', '+'], ['e', '-'], ['E', '+'], ['E', '-']]

theorem lexWhole_append {whole rest : Text} (h : IsWhole whole)
    (hrest : ∀ c ∈ rest.head?, c.isDigit = false) :
    lexWhole (whole ++ rest) = some (whole, rest) := by
  obtain ⟨hne, hdigits, hzero⟩ := h
  rw [lexWhole, lexDigits_append hne hdigits hrest, Option.filter_some_pos]
  simpa using hzero

theorem lexFraction_append {fraction rest : Text} (h : IsTail fractionMarks fraction)
    (hrest : ∀ c ∈ rest.head?, c.isDigit = false ∧ c ≠ '.') :
    lexFraction (fraction ++ rest) = some (fraction, rest) := by
  rcases h with rfl | ⟨mark, hmark, digits, rfl, hne, hdigits⟩
  · cases rest with
    | nil => rfl
    | cons c rest =>
      have hdot := (hrest c rfl).2
      simp [lexFraction, hdot]
  · cases List.mem_singleton.mp hmark
    have hlex := lexDigits_append hne hdigits fun c hc => (hrest c hc).1
    simp [lexFraction, hlex]

theorem lexExponent_append {exponent rest : Text} (h : IsTail exponentMarks exponent)
    (hrest : Delimited rest) : lexExponent (exponent ++ rest) = some (exponent, rest) := by
  rcases h with rfl | ⟨mark, hmark, digits, rfl, hne, hdigits⟩
  · cases rest with
    | nil => rfl
    | cons c rest =>
      obtain ⟨-, -, he, hE⟩ := hrest c rfl
      simp [lexExponent, he, hE]
  · have hlex := lexDigits_append hne hdigits fun c hc => (hrest c hc).1
    obtain ⟨d, ds, rfl⟩ := List.exists_cons_of_ne_nil hne
    have hd := hdigits d List.mem_cons_self
    have hplus : d ≠ '+' := by
      rintro rfl
      cases hd
    have hminus : d ≠ '-' := by
      rintro rfl
      cases hd
    simp only [List.cons_append] at hlex
    simp only [exponentMarks, List.mem_cons, List.not_mem_nil, or_false] at hmark
    rcases hmark with rfl | rfl | rfl | rfl | rfl | rfl
    all_goals simp [lexExponent, hlex, hplus, hminus]

/-- A tail starts with one of its marks, or with what follows it. -/
theorem IsTail.head {marks : List Text} {tail rest : Text} (h : IsTail marks tail)
    (hmarks : [] ∉ marks) {c : Char} (hc : c ∈ (tail ++ rest).head?) :
    c ∈ rest.head? ∨ ∃ mark ∈ marks, mark.head? = some c := by
  rcases h with rfl | ⟨mark, hmark, digits, rfl, -, -⟩
  · exact Or.inl hc
  · cases mark with
    | nil => exact absurd hmark hmarks
    | cons d mark =>
      cases hc
      exact Or.inr ⟨_, hmark, rfl⟩

theorem lexUnsigned_append {whole fraction exponent : Text} (hwhole : IsWhole whole)
    (hfraction : IsTail fractionMarks fraction) (hexponent : IsTail exponentMarks exponent)
    {rest : Text} (hrest : Delimited rest) :
    lexUnsigned (whole ++ (fraction ++ (exponent ++ rest))) =
      some (whole ++ fraction ++ exponent, rest) := by
  have hexp : ∀ c ∈ (exponent ++ rest).head?, c.isDigit = false ∧ c ≠ '.' := by
    intro c hc
    rcases hexponent.head (by decide) hc with hc | ⟨mark, hmark, hhead⟩
    · exact ⟨(hrest c hc).1, (hrest c hc).2.1⟩
    · revert hmark hhead
      simp only [exponentMarks, List.mem_cons, List.not_mem_nil, or_false]
      rintro (rfl | rfl | rfl | rfl | rfl | rfl) hhead
      all_goals
        cases hhead
        decide
  have hfrac : ∀ c ∈ (fraction ++ (exponent ++ rest)).head?, c.isDigit = false := by
    intro c hc
    rcases hfraction.head (by decide) hc with hc | ⟨mark, hmark, hhead⟩
    · exact (hexp c hc).1
    · cases List.mem_singleton.mp hmark
      cases hhead
      decide
  simp [lexUnsigned, lexWhole_append hwhole hfrac, lexFraction_append hfraction hexp,
    lexExponent_append hexponent hrest]

/-- The shape of a literal: a sign or none, a whole part, a fraction or none and
    an exponent or none. -/
theorem literal_of_parts {sign whole fraction exponent : Text} (hsign : sign = [] ∨ sign = ['-'])
    (hwhole : IsWhole whole) (hfraction : IsTail fractionMarks fraction)
    (hexponent : IsTail exponentMarks exponent) :
    Literal (sign ++ (whole ++ fraction ++ exponent)) := by
  intro rest hrest
  have hlex := lexUnsigned_append hwhole hfraction hexponent hrest
  rcases hsign with rfl | rfl
  · obtain ⟨d, ds, rfl⟩ := List.exists_cons_of_ne_nil hwhole.1
    have hminus : d ≠ '-' := by
      rintro rfl
      have hdigit := hwhole.2.1 _ List.mem_cons_self
      cases hdigit
    simp only [List.nil_append, List.append_assoc, List.cons_append] at hlex ⊢
    rw [lexNumber, hlex]
    simpa using hminus
  · simp only [List.append_assoc, List.cons_append, List.nil_append] at hlex ⊢
    rw [lexNumber, hlex]
    rfl

theorem isTail_nil (marks : List Text) : IsTail marks [] := Or.inl rfl

theorem head_toDigits {n : Nat} (h : 0 < n) : (Nat.toDigits 10 n).head? ≠ some '0' := by
  induction n using Nat.strong_induction_on with
  | _ n ih =>
    by_cases hsmall : n < 10
    · rw [Nat.toDigits_of_lt_base hsmall]
      simp
      omega
    · rw [Nat.toDigits_of_base_le (by decide) (by omega), List.head?_append]
      have hhead := ih (n / 10) (by omega) (by omega)
      obtain ⟨d, ds, hdigits⟩ :=
        List.exists_cons_of_ne_nil (Nat.toDigits_ne_nil (n := n / 10) (b := 10))
      rw [hdigits] at hhead ⊢
      exact hhead

theorem isWhole_ofNat (n : Nat) : IsWhole (Text.ofNat n) := by
  refine
    ⟨Nat.toDigits_ne_nil, fun c hc => Nat.isDigit_of_mem_toDigits (by decide) (by decide) hc, ?_⟩
  rcases Nat.eq_zero_or_pos n with rfl | hpos
  · exact Or.inr rfl
  · exact Or.inl (head_toDigits hpos)

theorem literal_ofNat (n : Nat) : Literal (Text.ofNat n) := by
  have h := literal_of_parts (Or.inl rfl) (isWhole_ofNat n) (isTail_nil _) (isTail_nil _)
  simpa using h

theorem literal_neg (n : Nat) : Literal ('-' :: Text.ofNat n) := by
  have h := literal_of_parts (Or.inr rfl) (isWhole_ofNat n) (isTail_nil _) (isTail_nil _)
  simpa using h

theorem lexDigits_digits {text digits rest : Text} (h : lexDigits text = some (digits, rest)) :
    digits ≠ [] ∧ ∀ c ∈ digits, c.isDigit = true := by
  refine ⟨(lexDigits_eq_some h).2, ?_⟩
  unfold lexDigits at h
  split at h
  · cases h
  · cases h
    exact fun c hc => List.mem_takeWhile_imp hc

theorem lexFraction_isTail {text fraction rest : Text}
    (h : lexFraction text = some (fraction, rest)) : IsTail fractionMarks fraction := by
  unfold lexFraction at h
  split at h
  · obtain ⟨⟨digits, rest'⟩, hdigits, heq⟩ := Option.map_eq_some_iff.mp h
    cases heq
    exact Or.inr ⟨['.'], by decide, digits, rfl, lexDigits_digits hdigits⟩
  · cases h
    exact isTail_nil _

theorem lexExponent_isTail {text exponent rest : Text}
    (h : lexExponent text = some (exponent, rest)) : IsTail exponentMarks exponent := by
  unfold lexExponent at h
  split at h
  · split at h
    · rename_i c _ he
      split at h
      all_goals
        obtain ⟨⟨digits, rest'⟩, hdigits, heq⟩ := Option.map_eq_some_iff.mp h
        cases heq
      · refine Or.inr ⟨[c, '+'], ?_, digits, rfl, lexDigits_digits hdigits⟩
        rcases he with rfl | rfl <;> decide
      · refine Or.inr ⟨[c, '-'], ?_, digits, rfl, lexDigits_digits hdigits⟩
        rcases he with rfl | rfl <;> decide
      · refine Or.inr ⟨[c], ?_, digits, rfl, lexDigits_digits hdigits⟩
        rcases he with rfl | rfl <;> decide
    · cases h
      exact isTail_nil _
  · cases h
    exact isTail_nil _

theorem isWhole_of_lexWhole {text whole rest : Text} (h : lexWhole text = some (whole, rest)) :
    IsWhole whole := by
  rw [lexWhole, Option.filter_eq_some_iff] at h
  obtain ⟨hdigits, hzero⟩ := h
  obtain ⟨hne, hall⟩ := lexDigits_digits hdigits
  exact ⟨hne, hall, by simpa using hzero⟩

theorem lexUnsigned_parts {text literal rest : Text} (h : lexUnsigned text = some (literal, rest)) :
    ∃ whole fraction exponent, IsWhole whole ∧ IsTail fractionMarks fraction ∧
      IsTail exponentMarks exponent ∧ literal = whole ++ fraction ++ exponent := by
  simp only [lexUnsigned, Option.bind_eq_bind, Option.bind_eq_some_iff, Option.pure_def] at h
  obtain ⟨⟨whole, text₁⟩, hwhole, ⟨fraction, text₂⟩, hfraction, ⟨exponent, text₃⟩, hexponent,
    heq⟩ := h
  cases heq
  exact ⟨whole, fraction, exponent, isWhole_of_lexWhole hwhole, lexFraction_isTail hfraction,
    lexExponent_isTail hexponent, rfl⟩

/-- A literal that is found in a text, in its parts. -/
theorem lexNumber_parts {text literal rest : Text} (h : lexNumber text = some (literal, rest)) :
    ∃ sign whole fraction exponent, (sign = [] ∨ sign = ['-']) ∧ IsWhole whole ∧
      IsTail fractionMarks fraction ∧ IsTail exponentMarks exponent ∧
      literal = sign ++ (whole ++ fraction ++ exponent) := by
  unfold lexNumber at h
  split at h
  · obtain ⟨⟨literal', rest'⟩, hlex, heq⟩ := Option.map_eq_some_iff.mp h
    cases heq
    obtain ⟨whole, fraction, exponent, hwhole, hfraction, hexponent, rfl⟩ := lexUnsigned_parts hlex
    exact ⟨['-'], whole, fraction, exponent, Or.inr rfl, hwhole, hfraction, hexponent, rfl⟩
  · obtain ⟨whole, fraction, exponent, hwhole, hfraction, hexponent, rfl⟩ := lexUnsigned_parts h
    exact ⟨[], whole, fraction, exponent, Or.inl rfl, hwhole, hfraction, hexponent, rfl⟩

/-! ### Strings -/

/-- A character that neither closes the string nor begins an escape. -/
theorem readString_char {lead : Option Nat} {c : Char} (hquote : c ≠ '"') (hslash : c ≠ '\\')
    (rest : Text) : readString lead (c :: rest) =
      if lead = none ∧ 32 ≤ c.toNat then
        (readString none rest).map fun (s, rest) => (c :: s, rest)
      else none := by
  rw [readString.eq_def]
  split
  case h_1 heq => cases heq
  case h_2 heq => exact absurd (List.head_eq_of_cons_eq heq) hquote
  case h_3 heq => exact absurd (List.head_eq_of_cons_eq heq) hslash
  case h_4 heq => exact absurd (List.head_eq_of_cons_eq heq) hslash
  case h_5 heq =>
    cases heq
    rfl

theorem readString_plain {c : Char} (hquote : c ≠ '"') (hslash : c ≠ '\\') (hplain : 32 ≤ c.toNat)
    (rest : Text) :
    readString none (c :: rest) = (readString none rest).map fun (s, rest) => (c :: s, rest) := by
  rw [readString_char hquote hslash, if_pos ⟨rfl, hplain⟩]

theorem readString_escaped {c made : Char} (hmade : unescape c = some made) (rest : Text) :
    readString none ('\\' :: c :: rest) =
      (readString none rest).map fun (s, rest) => (made :: s, rest) := by
  have hu : c ≠ 'u' := by
    rintro rfl
    cases hmade
  rw [readString]
  · intro a b c' d tail hc
    exact absurd hc hu
  · exact hmade

theorem readString_unicode {a b c d : Char} {n : Nat} (hhex : hex4 a b c d = some n)
    (hscalar : scalar none n = some (some (.ofNat n))) (rest : Text) :
    readString none ('\\' :: 'u' :: a :: b :: c :: d :: rest) =
      (readString none rest).map fun (s, rest) => (.ofNat n :: s, rest) := by
  rw [readString, hhex]
  simp only [hscalar]

theorem hexDigit_digitChar : ∀ n < 16, hexDigit n.digitChar = some n := by decide

/-- What a character is escaped to: a pair, its code in hexadecimal, or nothing else. -/
inductive Escaped (c : Char) : Text → Prop where
  | pair (d : Char) (plain : 32 ≤ d.toNat) (back : unescape d = some c) : Escaped c ['\\', d]
  | code (control : c.toNat < 32) :
    Escaped c ['\\', 'u', '0', '0', (c.toNat / 16).digitChar, (c.toNat % 16).digitChar]
  | self (quote : c ≠ '"') (slash : c ≠ '\\') (plain : 32 ≤ c.toNat) : Escaped c [c]

theorem escaped_escape (c : Char) : Escaped c (escape c) := by
  unfold escape
  by_cases hquote : c = '"'
  · subst hquote
    rw [if_pos rfl]
    exact Escaped.pair '"' (by decide) rfl
  rw [if_neg hquote]
  by_cases hslash : c = '\\'
  · subst hslash
    rw [if_pos rfl]
    exact Escaped.pair '\\' (by decide) rfl
  rw [if_neg hslash]
  by_cases hn : c = '\n'
  · subst hn
    rw [if_pos rfl]
    exact Escaped.pair 'n' (by decide) rfl
  rw [if_neg hn]
  by_cases hr : c = '\r'
  · subst hr
    rw [if_pos rfl]
    exact Escaped.pair 'r' (by decide) rfl
  rw [if_neg hr]
  by_cases ht : c = '\t'
  · subst ht
    rw [if_pos rfl]
    exact Escaped.pair 't' (by decide) rfl
  rw [if_neg ht]
  by_cases hb : c = '\x08'
  · subst hb
    rw [if_pos rfl]
    exact Escaped.pair 'b' (by decide) rfl
  rw [if_neg hb]
  by_cases hf : c = '\x0c'
  · subst hf
    rw [if_pos rfl]
    exact Escaped.pair 'f' (by decide) rfl
  rw [if_neg hf]
  by_cases hcontrol : c.toNat < 32
  · rw [if_pos hcontrol]
    exact Escaped.code hcontrol
  · rw [if_neg hcontrol]
    exact Escaped.self hquote hslash (Nat.le_of_not_lt hcontrol)

theorem readString_escape (c : Char) (rest : Text) :
    readString none (escape c ++ rest) =
      (readString none rest).map fun (s, rest) => (c :: s, rest) := by
  have hescaped := escaped_escape c
  generalize escape c = text at hescaped
  cases hescaped with
  | pair d plain back => exact readString_escaped back rest
  | code control =>
    -- a control character comes back from its two digits
    have hhex : hex4 '0' '0' (c.toNat / 16).digitChar (c.toNat % 16).digitChar = some c.toNat := by
      have hzero : hexDigit '0' = some 0 := rfl
      rw [hex4, hexDigit_digitChar _ (by omega), hexDigit_digitChar _ (by omega), hzero]
      show some _ = some _
      congr 1
      omega
    have hscalar : scalar none c.toNat = some (some (.ofNat c.toNat)) := by
      rw [scalar, if_neg (by omega), if_neg (by omega)]
    have hread := readString_unicode hhex hscalar rest
    rwa [Char.ofNat_toNat] at hread
  | self quote slash plain => exact readString_plain quote slash plain rest

theorem readString_writeString (s rest : Text) :
    readString none (writeString s ++ rest) = some (s, rest) := by
  induction s with
  | nil => rfl
  | cons c s ih =>
    have hsplit : writeString (c :: s) ++ rest = escape c ++ (writeString s ++ rest) := by
      simp [writeString]
    rw [hsplit, readString_escape, ih]
    rfl

/-! ### Texts that are read up to their end -/

/-- The text is read as the value, whatever follows it. -/
def Reads (floats : Floats F) (depth : Nat) (text : Text) (v : Value F) : Prop :=
  ∀ rest, Delimited rest → Gives floats depth (text ++ rest) (v, rest)

variable {depth : Nat}

theorem reads_null : Reads floats depth "null".toList .null := by
  intro rest hrest
  exact (gives_scalar (by decide) (by decide) (by decide)).mpr rfl

theorem reads_bool (b : Bool) : Reads floats depth (write floats (.bool b)) (.bool b) := by
  intro rest hrest
  cases b with
  | true => exact (gives_scalar (by decide) (by decide) (by decide)).mpr rfl
  | false => exact (gives_scalar (by decide) (by decide) (by decide)).mpr rfl

/-- A text that is read as a string up to its closing quote. -/
def ReadsString (body s : Text) : Prop := ∀ rest, readString none (body ++ rest) = some (s, rest)

theorem readsString_writeString (s : Text) : ReadsString (writeString s) s :=
  readString_writeString s

theorem reads_str {body s : Text} (h : ReadsString body s) :
    Reads floats depth ('"' :: body) (.str s) := by
  intro rest hrest
  refine (gives_scalar (by decide) (by decide) (by decide)).mpr ?_
  show readScalar floats ('"' :: (body ++ rest)) = _
  rw [readScalar, h rest]
  rfl

theorem readsString_plain {name : Text}
    (h : ∀ c ∈ name, c ≠ '"' ∧ c ≠ '\\' ∧ 32 ≤ c.toNat) : ReadsString (name ++ ['"']) name := by
  intro rest
  induction name with
  | nil => rfl
  | cons c name ih =>
    rw [List.forall_mem_cons] at h
    obtain ⟨⟨hquote, hslash, hplain⟩, hrest⟩ := h
    rw [List.cons_append, List.cons_append, readString_plain hquote hslash hplain, ih hrest]
    rfl

theorem ReadsString.unique {body s s' : Text} (h : ReadsString body s) (h' : ReadsString body s') :
    s = s' := by
  have hboth := (h []).symm.trans (h' [])
  simpa using hboth

theorem Reads.unique {text : Text} {v v' : Value F} (h : Reads floats depth text v)
    (h' : Reads floats depth text v') : v = v' := by
  have hboth := (h [] delimited_nil).unique (h' [] delimited_nil)
  simpa using hboth

/-- A literal starts with a sign or a digit. -/
theorem Literal.head {literal : Text} (h : Literal literal) :
    ∃ c cs, literal = c :: cs ∧ (c = '-' ∨ c.isDigit = true) := by
  have hlex := h [] delimited_nil
  rw [List.append_nil] at hlex
  cases literal with
  | nil => cases hlex
  | cons c cs =>
    refine ⟨c, cs, rfl, ?_⟩
    by_contra hnot
    rw [not_or] at hnot
    have hdigits : lexDigits (c :: cs) = none := by simp [lexDigits, hnot.2]
    rw [lexNumber] at hlex
    · simp [lexUnsigned, lexWhole, hdigits] at hlex
    · intro rest heq
      exact hnot.1 (List.head_eq_of_cons_eq heq)

theorem readScalar_literal {literal rest : Text} (h : Literal literal) (hrest : Delimited rest) :
    readScalar floats (literal ++ rest) =
      (readNumber floats literal).map fun n => (.num n, rest) := by
  have hlex := h rest hrest
  obtain ⟨c, cs, rfl, hc⟩ := h.head
  have hne : ∀ d : Char, d ≠ '-' → d.isDigit = false → c ≠ d := by
    rintro d hminus hdigit rfl
    rcases hc with rfl | hc
    · exact hminus rfl
    · rw [hdigit] at hc
      cases hc
  rw [List.cons_append] at hlex ⊢
  rw [readScalar.eq_def]
  split
  case h_1 heq => exact absurd (List.head_eq_of_cons_eq heq) (hne _ (by decide) (by decide))
  case h_2 heq => exact absurd (List.head_eq_of_cons_eq heq) (hne _ (by decide) (by decide))
  case h_3 heq => exact absurd (List.head_eq_of_cons_eq heq) (hne _ (by decide) (by decide))
  case h_4 heq => exact absurd (List.head_eq_of_cons_eq heq) (hne _ (by decide) (by decide))
  case h_5 => simp [hlex]

/-- What is read where the literal of a number stands. -/
theorem gives_literal {literal rest : Text} (h : Literal literal) (hrest : Delimited rest)
    {r : Value F × Text} :
    Gives floats depth (literal ++ rest) r ↔
      ∃ n, readNumber floats literal = some n ∧ r = (.num n, rest) := by
  have hscalar : readScalar floats (literal ++ rest) = _ := readScalar_literal h hrest
  obtain ⟨c, cs, rfl, hc⟩ := h.head
  have hne : ∀ d : Char, d ≠ '-' → d.isDigit = false → c ≠ d := by
    rintro d hminus hdigit rfl
    rcases hc with rfl | hc
    · exact hminus rfl
    · rw [hdigit] at hc
      cases hc
  have hws : isWs c = false := by
    have h1 := hne ' ' (by decide) (by decide)
    have h2 := hne '\n' (by decide) (by decide)
    have h3 := hne '\t' (by decide) (by decide)
    have h4 := hne '\r' (by decide) (by decide)
    simp [isWs, h1, h2, h3, h4]
  rw [List.cons_append] at hscalar ⊢
  rw [gives_scalar hws (hne _ (by decide) (by decide)) (hne _ (by decide) (by decide)), hscalar,
    Option.map_eq_some_iff]
  simp only [eq_comm]

theorem reads_num {literal : Text} {n : Number F} (h : Literal literal)
    (hn : readNumber floats literal = some n) : Reads floats depth literal (.num n) := by
  intro rest hrest
  exact (gives_literal h hrest).mpr ⟨n, hn, rfl⟩

/-- White space, as a run of it. -/
def IsBlank (ws : Text) : Prop := ∀ c ∈ ws, isWs c = true

theorem isBlank_nil : IsBlank [] := by
  intro c hc
  cases hc

theorem skipWs_blank_cons {ws : Text} (hws : IsBlank ws) {c : Char} (hc : isWs c = false)
    (rest : Text) : skipWs (ws ++ c :: rest) = c :: rest := by
  rw [skipWs_append hws, skipWs_cons hc]

/-- One item or more, with white space between the marks, and the bracket. -/
inductive ReadsItems (floats : Floats F) (depth : Nat) : Text → List (Value F) → Prop where
  | last {text ws : Text} {v : Value F} :
      Reads floats depth text v → IsBlank ws → ReadsItems floats depth (text ++ (ws ++ [']'])) [v]
  | more {text ws ws' items : Text} {v : Value F} {vs : List (Value F)} :
      Reads floats depth text v → IsBlank ws → IsBlank ws' → ReadsItems floats depth items vs →
      ReadsItems floats depth (text ++ (ws ++ ',' :: (ws' ++ items))) (v :: vs)

/-- One member or more, with white space between the marks, and the brace. -/
inductive ReadsMembers (floats : Floats F) (depth : Nat) : Text → List (Text × Value F) → Prop where
  | last {body key ws₁ ws₂ text ws₃ : Text} {v : Value F} :
      ReadsString body key → IsBlank ws₁ → IsBlank ws₂ → Reads floats depth text v → IsBlank ws₃ →
      ReadsMembers floats depth
        ('"' :: (body ++ (ws₁ ++ ':' :: (ws₂ ++ (text ++ (ws₃ ++ ['\x7d'])))))) [(key, v)]
  | more {body key ws₁ ws₂ text ws₃ ws₄ rest : Text} {v : Value F}
      {members : List (Text × Value F)} :
      ReadsString body key → IsBlank ws₁ → IsBlank ws₂ → Reads floats depth text v → IsBlank ws₃ →
      IsBlank ws₄ → ReadsMembers floats depth rest members →
      ReadsMembers floats depth
        ('"' :: (body ++ (ws₁ ++ ':' :: (ws₂ ++ (text ++ (ws₃ ++ ',' :: (ws₄ ++ rest)))))))
        ((key, v) :: members)

theorem ReadsItems.gives {text : Text} {vs : List (Value F)} (h : ReadsItems floats depth text vs)
    (rest : Text) : GivesItems floats depth (text ++ rest) (vs, rest) := by
  induction h with
  | last hread hws =>
    rw [givesItems_iff]
    simp only [List.append_assoc, List.singleton_append]
    refine ⟨_, _, hread _ (delimited_ws hws (delimited_cons (by decide) _)), Or.inr ⟨rest, ?_, rfl⟩⟩
    exact skipWs_blank_cons hws (by decide) rest
  | more hread hws hws' _ ih =>
    rw [givesItems_iff]
    simp only [List.append_assoc, List.cons_append]
    refine ⟨_, _, hread _ (delimited_ws hws (delimited_cons (by decide) _)),
      Or.inl ⟨_, _, rest, skipWs_blank_cons hws (by decide) _, ?_, rfl⟩⟩
    rw [← givesItems_skipWs, skipWs_append hws', givesItems_skipWs]
    exact ih

theorem ReadsMembers.gives {text : Text} {members : List (Text × Value F)}
    (h : ReadsMembers floats depth text members) (rest : Text) :
    GivesMembers floats depth (text ++ rest) (members, rest) := by
  induction h with
  | last hkey hws₁ hws₂ hread hws₃ =>
    rw [givesMembers_iff]
    simp only [List.append_assoc, List.cons_append, List.nil_append]
    refine ⟨_, _, _, _, _, _, skipWs_cons (by decide) _, hkey _,
      skipWs_blank_cons hws₁ (by decide) _, (gives_ws hws₂).mpr (hread _ ?_),
      Or.inr ⟨rest, skipWs_blank_cons hws₃ (by decide) rest, rfl⟩⟩
    exact delimited_ws hws₃ (delimited_cons (by decide) _)
  | more hkey hws₁ hws₂ hread hws₃ hws₄ _ ih =>
    rw [givesMembers_iff]
    simp only [List.append_assoc, List.cons_append]
    refine ⟨_, _, _, _, _, _, skipWs_cons (by decide) _, hkey _,
      skipWs_blank_cons hws₁ (by decide) _, (gives_ws hws₂).mpr (hread _ ?_),
      Or.inl ⟨_, _, rest, skipWs_blank_cons hws₃ (by decide) _, ?_, rfl⟩⟩
    · exact delimited_ws hws₃ (delimited_cons (by decide) _)
    · rw [← givesMembers_skipWs, skipWs_append hws₄, givesMembers_skipWs]
      exact ih

theorem reads_arr_nil {ws : Text} (hws : IsBlank ws) (hdepth : 1 < depth) :
    Reads floats depth ('[' :: (ws ++ [']'])) (.arr []) := by
  intro rest hrest
  rw [List.cons_append, List.append_assoc]
  refine gives_arr.mpr ⟨hdepth, Or.inl ⟨rest, ?_, rfl⟩⟩
  exact skipWs_blank_cons hws (by decide) rest

theorem reads_arr {ws text : Text} {vs : List (Value F)} (hws : IsBlank ws) (hdepth : 1 < depth)
    (h : ReadsItems floats (depth - 1) text vs) :
    Reads floats depth ('[' :: (ws ++ text)) (.arr vs) := by
  intro rest hrest
  rw [List.cons_append, List.append_assoc]
  refine gives_arr.mpr ⟨hdepth, Or.inr ⟨vs, rest, ?_, rfl⟩⟩
  rw [← givesItems_skipWs, skipWs_append hws, givesItems_skipWs]
  exact h.gives rest

theorem reads_obj_nil {ws : Text} (hws : IsBlank ws) (hdepth : 1 < depth) :
    Reads floats depth ('\x7b' :: (ws ++ ['\x7d'])) (.obj []) := by
  intro rest hrest
  rw [List.cons_append, List.append_assoc]
  refine gives_obj.mpr ⟨hdepth, Or.inl ⟨rest, ?_, rfl⟩⟩
  exact skipWs_blank_cons hws (by decide) rest

theorem reads_obj {ws text : Text} {members : List (Text × Value F)} (hws : IsBlank ws)
    (hdepth : 1 < depth) (h : ReadsMembers floats (depth - 1) text members) :
    Reads floats depth ('\x7b' :: (ws ++ text)) (.obj (collectMembers members)) := by
  intro rest hrest
  rw [List.cons_append, List.append_assoc]
  refine gives_obj.mpr ⟨hdepth, Or.inr ⟨members, rest, ?_, rfl⟩⟩
  rw [← givesMembers_skipWs, skipWs_append hws, givesMembers_skipWs]
  exact h.gives rest

/-! ### The round trip -/

mutual

/-- The value with the members of its objects filed under their keys. -/
def Value.normal : Value F → Value F
  | .arr vs => .arr (normalItems vs)
  | .obj members => .obj (collectMembers (normalMembers members))
  | .null => .null
  | .bool b => .bool b
  | .num n => .num n
  | .str s => .str s

def normalItems : List (Value F) → List (Value F)
  | [] => []
  | v :: vs => v.normal :: normalItems vs

def normalMembers : List (Text × Value F) → List (Text × Value F)
  | [] => []
  | (key, v) :: members => (key, v.normal) :: normalMembers members

end

mutual

/-- How many brackets are open at once. -/
def Value.nesting : Value F → Nat
  | .arr vs => nestingItems vs + 1
  | .obj members => nestingMembers members + 1
  | .null => 0
  | .bool _ => 0
  | .num _ => 0
  | .str _ => 0

def nestingItems : List (Value F) → Nat
  | [] => 0
  | v :: vs => max v.nesting (nestingItems vs)

def nestingMembers : List (Text × Value F) → Nat
  | [] => 0
  | (_, v) :: members => max v.nesting (nestingMembers members)

end

/-- A double reads back from the text it is written as, and that text is the
    literal of a number and holds no control character. -/
structure Floats.Lawful (floats : Floats F) : Prop where
  literal : ∀ f, Literal (floats.write f)
  plain : ∀ f, ∀ c ∈ floats.write f, 32 ≤ c.toNat
  reads : ∀ f, readNumber floats (floats.write f) = some (.float f)

theorem all_isDigit_ofNat (n : Nat) : (Text.ofNat n).all Char.isDigit = true := by
  rw [List.all_eq_true]
  exact (isWhole_ofNat n).2.1

theorem readNumber_ofNat (n : UInt64) :
    readNumber floats (Text.ofNat n.toNat) = some (.posInt n) := by
  obtain ⟨d, ds, hdigits⟩ := List.exists_cons_of_ne_nil (isWhole_ofNat n.toNat).1
  have hminus : d ≠ '-' := by
    rintro rfl
    have hdigit := (isWhole_ofNat n.toNat).2.1 '-' (by rw [hdigits]; exact List.mem_cons_self)
    cases hdigit
  have hvalue : Nat.ofDigitChars 10 (Text.ofNat n.toNat) 0 = n.toNat :=
    Nat.ofDigitChars_ten_toDigits
  have hall := all_isDigit_ofNat n.toNat
  rw [hdigits] at hvalue hall ⊢
  rw [readNumber.eq_def]
  split
  · rename_i heq
    exact absurd (List.head_eq_of_cons_eq heq) hminus
  · rw [hvalue, if_pos ⟨hall, n.toNat_lt⟩, UInt64.ofNat_toNat]

theorem readNumber_neg (n : Fin (2 ^ 63)) :
    readNumber floats ('-' :: Text.ofNat (n.val + 1)) = some (.negInt n) := by
  have hvalue : Nat.ofDigitChars 10 (Text.ofNat (n.val + 1)) 0 = n.val + 1 :=
    Nat.ofDigitChars_ten_toDigits
  simp only [readNumber, all_isDigit_ofNat, if_true, hvalue, n.isLt, dif_pos]

theorem reads_number (hfloats : floats.Lawful) (n : Number F) :
    Reads floats depth (writeNumber floats n) (.num n) := by
  cases n with
  | posInt n => exact reads_num (literal_ofNat _) (readNumber_ofNat n)
  | negInt n => exact reads_num (literal_neg _) (readNumber_neg n)
  | float f => exact reads_num (hfloats.literal f) (hfloats.reads f)

mutual

/-- **Round trip.** What is written for a value is read as that value, filed. -/
theorem reads_write (hfloats : floats.Lawful) :
    ∀ (v : Value F) (depth : Nat), v.nesting < depth → Reads floats depth (write floats v) v.normal
  | .null, _, _ => reads_null
  | .bool b, _, _ => reads_bool b
  | .num n, _, _ => reads_number hfloats n
  | .str s, _, _ => reads_str (readsString_writeString s)
  | .arr [], _, h => reads_arr_nil isBlank_nil h
  | .arr (v :: vs), depth, h => by
    simp only [Value.nesting, nestingItems] at h
    have hitems := readsItems_write hfloats v vs (depth - 1) (by omega) (by omega)
    have hread := reads_arr isBlank_nil (show 1 < depth by omega) hitems
    exact hread
  | .obj [], _, h => reads_obj_nil isBlank_nil h
  | .obj ((key, v) :: members), depth, h => by
    simp only [Value.nesting, nestingMembers] at h
    have hmembers := readsMembers_write hfloats key v members (depth - 1) (by omega) (by omega)
    exact reads_obj isBlank_nil (by omega) hmembers
termination_by v => sizeOf v

theorem readsItems_write (hfloats : floats.Lawful) :
    ∀ (v : Value F) (vs : List (Value F)) (depth : Nat), v.nesting < depth →
      nestingItems vs < depth →
      ReadsItems floats depth (write floats v ++ writeItems floats vs) (v.normal :: normalItems vs)
  | v, [], depth, hv, _ => .last (reads_write hfloats v depth hv) isBlank_nil
  | v, w :: ws, depth, hv, hvs => by
    simp only [nestingItems] at hvs
    have hitems := readsItems_write hfloats w ws depth (by omega) (by omega)
    have hread := ReadsItems.more (reads_write hfloats v depth hv) isBlank_nil isBlank_nil hitems
    exact hread
termination_by v vs => 1 + sizeOf v + sizeOf vs

theorem readsMembers_write (hfloats : floats.Lawful) :
    ∀ (key : Text) (v : Value F) (members : List (Text × Value F)) (depth : Nat),
      v.nesting < depth → nestingMembers members < depth →
      ReadsMembers floats depth
        ('"' :: (writeString key ++ ':' :: (write floats v ++ writeMembers floats members)))
        ((key, v.normal) :: normalMembers members)
  | key, v, [], depth, hv, _ =>
    .last (readsString_writeString key) isBlank_nil isBlank_nil (reads_write hfloats v depth hv)
      isBlank_nil
  | key, v, (key', v') :: members, depth, hv, hmembers => by
    simp only [nestingMembers] at hmembers
    have hrest := readsMembers_write hfloats key' v' members depth (by omega) (by omega)
    exact .more (readsString_writeString key) isBlank_nil isBlank_nil
      (reads_write hfloats v depth hv) isBlank_nil isBlank_nil hrest
termination_by _ v members => 1 + sizeOf v + sizeOf members

end

theorem fromStr_write (hfloats : floats.Lawful) {v : Value F} (h : v.nesting < recursionLimit) :
    fromStr floats (write floats v) = some v.normal := by
  rw [fromStr_eq_some]
  have hread := reads_write hfloats v _ h [] delimited_nil
  rw [List.append_nil] at hread
  exact ⟨[], hread, rfl⟩

/-! ### No control characters -/

/-- No control character, so no line feed and no carriage return. -/
def Plain (text : Text) : Prop := ∀ c ∈ text, 32 ≤ c.toNat

theorem plain_append {text text' : Text} : Plain (text ++ text') ↔ Plain text ∧ Plain text' := by
  simp only [Plain, List.mem_append, or_imp, forall_and]

theorem plain_cons {c : Char} {text : Text} : Plain (c :: text) ↔ 32 ≤ c.toNat ∧ Plain text := by
  simp only [Plain, List.mem_cons, forall_eq_or_imp]

theorem plain_pair {c d : Char} (hc : 32 ≤ c.toNat) (hd : 32 ≤ d.toNat) : Plain [c, d] := by
  simp [Plain, hc, hd]

theorem plain_of_all {text : Text} (h : text.all (fun c => 32 ≤ c.toNat) = true) : Plain text := by
  intro c hc
  exact of_decide_eq_true (List.all_eq_true.mp h c hc)

theorem plain_escape (c : Char) : Plain (escape c) := by
  have hdigit : ∀ n < 16, 32 ≤ (Nat.digitChar n).toNat := by decide
  have hescaped := escaped_escape c
  generalize escape c = text at hescaped
  cases hescaped with
  | pair d plain back => exact plain_pair (by decide) plain
  | code control =>
    have hhigh := hdigit (c.toNat / 16) (by omega)
    have hlow := hdigit (c.toNat % 16) (by omega)
    simp [Plain, hhigh, hlow]
  | self quote slash plain => simpa [Plain] using plain

theorem plain_writeString (s : Text) : Plain (writeString s) := by
  refine plain_append.mpr ⟨?_, by simp [Plain]⟩
  intro c hc
  obtain ⟨d, -, hd⟩ := List.mem_flatMap.mp hc
  exact plain_escape d c hd

theorem plain_ofNat (n : Nat) : Plain (Text.ofNat n) := by
  intro c hc
  have hdigit := (isWhole_ofNat n).2.1 c hc
  rw [Char.isDigit, Bool.and_eq_true, decide_eq_true_eq, decide_eq_true_eq] at hdigit
  have hle : '0'.toNat ≤ c.toNat := hdigit.1
  exact le_trans (by decide) hle

mutual

/-- What is written is one line. -/
theorem plain_write (hfloats : floats.Lawful) : ∀ v : Value F, Plain (write floats v)
  | .null => by
    rw [write]
    exact plain_of_all (by decide)
  | .bool true => by
    rw [write]
    exact plain_of_all (by decide)
  | .bool false => by
    rw [write]
    exact plain_of_all (by decide)
  | .num (.posInt n) => plain_ofNat n.toNat
  | .num (.negInt n) => plain_cons.mpr ⟨by decide, plain_ofNat _⟩
  | .num (.float f) => hfloats.plain f
  | .str s => plain_cons.mpr ⟨by decide, plain_writeString s⟩
  | .arr [] => by simp [write, Plain]
  | .arr (v :: vs) =>
    plain_cons.mpr
    ⟨by decide, plain_append.mpr ⟨plain_write hfloats v, plain_writeItems hfloats vs⟩⟩
  | .obj [] => by simp [write, Plain]
  | .obj ((key, v) :: members) => by
    rw [write, plain_cons, plain_cons, plain_append, plain_cons, plain_append]
    exact ⟨by decide, by decide, plain_writeString key, by decide, plain_write hfloats v,
      plain_writeMembers hfloats members⟩

theorem plain_writeItems (hfloats : floats.Lawful) :
    ∀ vs : List (Value F), Plain (writeItems floats vs)
  | [] => by simp [writeItems, Plain]
  | v :: vs =>
    plain_cons.mpr
    ⟨by decide, plain_append.mpr ⟨plain_write hfloats v, plain_writeItems hfloats vs⟩⟩

theorem plain_writeMembers (hfloats : floats.Lawful) :
    ∀ members : List (Text × Value F), Plain (writeMembers floats members)
  | [] => by simp [writeMembers, Plain]
  | (key, v) :: members => by
    rw [writeMembers, plain_cons, plain_cons, plain_append, plain_cons, plain_append]
    exact ⟨by decide, by decide, plain_writeString key, by decide, plain_write hfloats v,
      plain_writeMembers hfloats members⟩

end

/-! ### Members by their keys -/

theorem lookup_append (key : Text) (members members' : List (Text × Value F)) :
    lookup key (members ++ members') = (lookup key members).or (lookup key members') := by
  simp only [lookup, List.find?_append, Option.map_or]

theorem lookup_cons (key key' : Text) (v : Value F) (members : List (Text × Value F)) :
    lookup key ((key', v) :: members) = if key' = key then some v else lookup key members := by
  by_cases h : key' = key
  · simp [lookup, h]
  · simp [lookup, h]

theorem lookup_insertMember (key key' : Text) (v : Value F) (members : List (Text × Value F)) :
    lookup key (insertMember key' v members) = if key' =
    key then some v else lookup key members := by
  induction members with
  | nil => exact lookup_cons key key' v []
  | cons member members ih =>
    obtain ⟨name, w⟩ := member
    rw [insertMember]
    by_cases hsame : key' = name
    · subst hsame
      rw [if_pos rfl, lookup_cons, lookup_cons]
      split
      · rfl
      · rfl
    · rw [if_neg hsame]
      by_cases hless : key' < name
      · rw [if_pos hless, lookup_cons]
      · rw [if_neg hless, lookup_cons, ih, lookup_cons]
        by_cases hname : name = key
        · subst hname
          rw [if_pos rfl, if_neg hsame, if_pos rfl]
        · rw [if_neg hname, if_neg hname]

/-- The last of equal keys wins. -/
theorem lookup_collectMembers (key : Text) (members : List (Text × Value F)) :
    lookup key (collectMembers members) = lookup key members.reverse := by
  unfold collectMembers
  induction members using List.reverseRecOn with
  | nil => rfl
  | append_singleton members member ih =>
    rw [List.foldl_append, List.foldl_cons, List.foldl_nil, lookup_insertMember, ih,
      List.reverse_append, List.reverse_singleton, List.singleton_append]
    exact (lookup_cons key member.1 member.2 _).symm

/-! ### Maps -/

mutual

/-- A value as maps hold it: every key once, and in order. -/
def Value.Filed : Value F → Prop
  | .arr vs => FiledItems vs
  | .obj members => (members.map Prod.fst).Pairwise (· < ·) ∧ FiledMembers members
  | .null => True
  | .bool _ => True
  | .num _ => True
  | .str _ => True

def FiledItems : List (Value F) → Prop
  | [] => True
  | v :: vs => v.Filed ∧ FiledItems vs

def FiledMembers : List (Text × Value F) → Prop
  | [] => True
  | (_, v) :: members => v.Filed ∧ FiledMembers members

end

theorem filedMembers_iff {members : List (Text × Value F)} :
    FiledMembers members ↔ ∀ member ∈ members, member.2.Filed := by
  induction members with
  | nil => simp [FiledMembers]
  | cons member members ih =>
    obtain ⟨key, v⟩ := member
    simp [FiledMembers, ih]

theorem mem_of_lookup {members : List (Text × Value F)} {key : Text} {v : Value F}
    (h : lookup key members = some v) : (key, v) ∈ members := by
  rw [lookup, Option.map_eq_some_iff] at h
  obtain ⟨member, hfind, rfl⟩ := h
  have hkey : member.1 = key := by simpa using List.find?_some hfind
  subst hkey
  exact List.mem_of_find?_eq_some hfind

theorem lookup_isSome {members : List (Text × Value F)} {key : Text} {v : Value F}
    (h : (key, v) ∈ members) : (lookup key members).isSome := by
  rw [lookup, Option.isSome_map, List.find?_isSome]
  exact ⟨(key, v), h, by simp⟩

/-- The one member of a key is the one found. -/
theorem lookup_eq_of_forall {members : List (Text × Value F)} {key : Text} {v : Value F}
    (h : (key, v) ∈ members) (hone : ∀ w, (key, w) ∈ members → w = v) :
    lookup key members = some v := by
  obtain ⟨w, hw⟩ := Option.isSome_iff_exists.mp (lookup_isSome h)
  rw [hw, hone w (mem_of_lookup hw)]

theorem nodup_keys {members : List (Text × Value F)} (hfiled : (Value.obj members).Filed) :
    (members.map Prod.fst).Nodup := by
  refine hfiled.1.imp ?_
  rintro key _ hless rfl
  exact List.lt_irrefl key hless

theorem lookup_of_mem {members : List (Text × Value F)} (hfiled : (Value.obj members).Filed)
    {key : Text} {v : Value F} (h : (key, v) ∈ members) : lookup key members = some v := by
  refine lookup_eq_of_forall h fun w hw => ?_
  -- two members of one key are one member
  have hsame := List.inj_on_of_nodup_map (nodup_keys hfiled) h hw rfl
  cases hsame
  rfl

theorem lookup_filed {members : List (Text × Value F)} (hfiled : (Value.obj members).Filed)
    {key : Text} {v : Value F} (h : lookup key members = some v) : v.Filed :=
  filedMembers_iff.mp hfiled.2 _ (mem_of_lookup h)

theorem insertMember_last {members : List (Text × Value F)} {key : Text} {v : Value F}
    (h : ∀ member ∈ members, member.1 < key) :
    insertMember key v members = members ++ [(key, v)] := by
  induction members with
  | nil => rfl
  | cons member members ih =>
    rw [List.forall_mem_cons] at h
    have hne : key ≠ member.1 := by
      rintro rfl
      exact List.lt_irrefl _ h.1
    rw [insertMember, if_neg hne, if_neg (List.lt_asymm h.1), ih h.2, List.cons_append]

/-- Members that are in order are filed already. -/
theorem collectMembers_sorted {members : List (Text × Value F)}
    (h : (members.map Prod.fst).Pairwise (· < ·)) : collectMembers members = members := by
  induction members using List.reverseRecOn with
  | nil => rfl
  | append_singleton members member ih =>
    rw [List.map_append, List.pairwise_append] at h
    obtain ⟨hsorted, -, hless⟩ := h
    have hlast : ∀ m ∈ members, m.1 < member.1 :=
      fun m hm => hless _ (List.mem_map_of_mem hm) _ (by simp)
    have hinit := ih hsorted
    rw [collectMembers] at hinit
    rw [collectMembers, List.foldl_append, hinit]
    exact insertMember_last hlast

theorem filedItems_iff {vs : List (Value F)} : FiledItems vs ↔ ∀ v ∈ vs, v.Filed := by
  induction vs with
  | nil => simp [FiledItems]
  | cons v vs ih => simp [FiledItems, ih]

mutual

/-- What is filed stays as it is. -/
theorem normal_of_filed {v : Value F} (h : v.Filed) : v.normal = v := by
  cases v with
  | arr vs => rw [Value.normal, normalItems_of_filed h]
  | obj members => rw [Value.normal, normalMembers_of_filed h.2, collectMembers_sorted h.1]
  | null => rfl
  | bool => rfl
  | num => rfl
  | str => rfl

theorem normalItems_of_filed {vs : List (Value F)} (h : FiledItems vs) : normalItems vs = vs := by
  cases vs with
  | nil => rfl
  | cons v vs => rw [normalItems, normal_of_filed h.1, normalItems_of_filed h.2]

theorem normalMembers_of_filed {members : List (Text × Value F)} (h : FiledMembers members) :
    normalMembers members = members := by
  cases members with
  | nil => rfl
  | cons member members =>
    obtain ⟨key, v⟩ := member
    rw [normalMembers, normal_of_filed h.1, normalMembers_of_filed h.2]

end

end AiDaemon.Json
