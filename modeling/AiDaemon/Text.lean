import Mathlib.Data.List.Basic
import Mathlib.Data.List.TakeWhile
import Mathlib.Tactic.Common
import Mathlib.Algebra.Order.BigOperators.Group.List
import Mathlib.Algebra.Order.Ring.Nat
import Mathlib.Data.UInt

/-!
# Text

A Rust `str` is a sequence of Unicode scalar values, and so is a `List Char`.
The string functions the daemon calls are spelled here on that type, each
following the documented behaviour of the `str` method it is named after.
Splitting on a character is `List.splitOn`, joining is `List.intercalate`,
`strip_prefix` and `strip_suffix` are `List.isPrefixOf?` and
`List.isSuffixOf?`; only what the library lacks is defined.
-/

namespace AiDaemon

/-- A string, as its scalar values. -/
abbrev Text := List Char

instance : Coe String Text := ⟨String.toList⟩

-- by name, so that a list of texts is searched the same way in every module
instance : LawfulBEq Text := inferInstance

instance : LawfulBEq (Option Text) := inferInstance

instance : LawfulBEq (Text × Nat) := inferInstance

namespace Text

/-- A number in decimal, as `format!` writes it. -/
def ofNat (n : Nat) : Text := Nat.toDigits 10 n

/-- The Unicode `White_Space` property, which `trim` and `split_whitespace` use. -/
def isWhite (c : Char) : Bool :=
  (0x09 ≤ c.val && c.val ≤ 0x0d) || c.val = 0x20 || c.val = 0x85 || c.val = 0xa0 ||
    c.val = 0x1680 || (0x2000 ≤ c.val && c.val ≤ 0x200a) || c.val = 0x2028 || c.val = 0x2029 ||
    c.val = 0x202f || c.val = 0x205f || c.val = 0x3000

/-- `trim`. -/
def trim (s : Text) : Text := ((s.dropWhile isWhite).reverse.dropWhile isWhite).reverse

/-- `trim_end_matches` with a string pattern: the suffix comes off as often as
    it is there. -/
def trimEndMatches (suffix s : Text) : Text := go s.length s
where
  go : Nat → Text → Text
    | 0, s => s
    | fuel + 1, s =>
      match suffix.isSuffixOf? s with
      | some rest => go fuel rest
      | none => s

/-- `rsplit_once`: the text before and after the last occurrence of `pat`. -/
def rsplitOnce (pat : Text) : Text → Option (Text × Text)
  | [] => none
  | c :: cs =>
    match rsplitOnce pat cs with
    | some (before, after) => some (c :: before, after)
    | none => (pat.isPrefixOf? (c :: cs)).map fun after => ([], after)

/-- A line ending is `\n` or `\r\n`; the `\r` of the latter goes with it. -/
def stripCr (line : Text) : Text := (['\r'].isSuffixOf? line).getD line

/-- `lines`: the pieces between line feeds. The last piece has no line feed
    after it, so it keeps a `\r`, and it is no line at all when empty. -/
def lines (s : Text) : List Text :=
  let pieces := s.splitOn '\n'
  pieces.dropLast.map stripCr ++ pieces.getLast?.toList.filter (fun line => line ≠ [])

/-- `split_whitespace`. -/
def splitWhitespace (s : Text) : List Text := (s.splitOnP isWhite).filter (fun word => word ≠ [])

/-- The value of a non-empty run of ASCII digits. -/
def digits? (s : Text) : Option Nat :=
  if s ≠ [] ∧ s.all Char.isDigit then
    some (s.foldl (fun acc c => acc * 10 + (c.toNat - '0'.toNat)) 0)
  else none

/-- `parse::<u32>()`: an optional plus sign, digits, and a value in range. -/
def parseU32 (s : Text) : Option Nat :=
  (digits? ((['+'].isPrefixOf? s).getD s)).filter (fun n => n < 2 ^ 32)

/-- `is_ascii_hexdigit`. -/
def isHexDigit (c : Char) : Bool :=
  c.isDigit || ('a' ≤ c && c ≤ 'f') || ('A' ≤ c && c ≤ 'F')

/-- The length of a string in bytes, which is what `len` counts. -/
def byteLen (s : Text) : Nat := (s.map Char.utf8Size).sum

theorem byteLen_append (s t : Text) : byteLen (s ++ t) = byteLen s + byteLen t := by
  simp [byteLen]

theorem trim_isInfix (s : Text) : trim s <:+: s := by
  have hend : trim s <+: s.dropWhile isWhite := by
    rw [← List.reverse_suffix, trim, List.reverse_reverse]
    exact List.dropWhile_suffix _
  exact hend.isInfix.trans (List.dropWhile_suffix _).isInfix

theorem ofNat_injective : Function.Injective ofNat := by
  intro m n h
  have hread := congrArg (fun digits => Nat.ofDigitChars 10 digits 0) h
  simp only [ofNat] at hread
  rw [Nat.ofDigitChars_toDigits (by decide) (by decide),
    Nat.ofDigitChars_toDigits (by decide) (by decide)] at hread
  exact hread

/-! ### Stripping a prefix or a suffix -/

theorem trim_eq_nil {s : Text} : trim s = [] ↔ ∀ c ∈ s, isWhite c = true := by
  simp only [trim, List.reverse_eq_nil_iff, List.dropWhile_eq_nil_iff, List.mem_reverse]
  constructor
  · intro h c hc
    -- what `dropWhile` took away is white too
    rw [← List.takeWhile_append_dropWhile (p := isWhite) (l := s)] at hc
    rcases List.mem_append.mp hc with hc | hc
    · exact List.mem_takeWhile_imp hc
    · exact h c hc
  · intro h c hc
    exact h c ((List.dropWhile_sublist _).subset hc)

theorem isPrefixOf?_append (p rest : Text) : p.isPrefixOf? (p ++ rest) = some rest := by
  rw [List.isPrefixOf?_eq_some_iff_append_eq]

theorem isPrefixOf?_eq_none {p s : Text} : p.isPrefixOf? s = none ↔ ¬ p <+: s := by
  rw [Option.eq_none_iff_forall_ne_some]
  simp only [ne_eq, List.isPrefixOf?_eq_some_iff_append_eq, List.IsPrefix, not_exists]

theorem isSuffixOf?_eq_none {p s : Text} : p.isSuffixOf? s = none ↔ ¬ p <:+ s := by
  rw [Option.eq_none_iff_forall_ne_some]
  simp only [ne_eq, List.isSuffixOf?_eq_some_iff_append_eq, List.IsSuffix, not_exists]

theorem rsplitOnce_eq_some {pat s : Text} {cut : Text × Text} (h : rsplitOnce pat s = some cut) :
    s = cut.1 ++ pat ++ cut.2 := by
  induction s generalizing cut with
  | nil => cases h
  | cons c cs ih =>
    cases hrest : rsplitOnce pat cs with
    | some later =>
      simp only [rsplitOnce, hrest, Option.some.injEq] at h
      rw [← h, ih hrest]
      simp
    | none =>
      simp only [rsplitOnce, hrest, Option.map_eq_some_iff] at h
      obtain ⟨after, hafter, rfl⟩ := h
      rw [List.isPrefixOf?_eq_some_iff_append_eq] at hafter
      simp [hafter]

theorem rsplitOnce_char_eq_none {sep : Char} {s : Text} :
    rsplitOnce [sep] s = none ↔ sep ∉ s := by
  induction s with
  | nil => simp [rsplitOnce]
  | cons c cs ih =>
    cases hrest : rsplitOnce [sep] cs with
    | some later =>
      have hmem : sep ∈ cs := by
        by_contra hnot
        rw [ih.mpr hnot] at hrest
        cases hrest
      simp [rsplitOnce, hrest, hmem]
    | none =>
      simp only [rsplitOnce, hrest, Option.map_eq_none_iff, isPrefixOf?_eq_none, List.mem_cons,
        ih.mp hrest, or_false]
      simp

/-- With one character as the pattern, nothing of it is left after the cut. -/
theorem rsplitOnce_char_eq_some {sep : Char} {s : Text} {cut : Text × Text}
    (h : rsplitOnce [sep] s = some cut) : s = cut.1 ++ sep :: cut.2 ∧ sep ∉ cut.2 := by
  have heq := rsplitOnce_eq_some h
  refine ⟨by simpa using heq, ?_⟩
  clear heq
  induction s generalizing cut with
  | nil => cases h
  | cons c cs ih =>
    cases hrest : rsplitOnce [sep] cs with
    | some later =>
      simp only [rsplitOnce, hrest, Option.some.injEq] at h
      have hlater := ih hrest
      rw [← h]
      exact hlater
    | none =>
      simp only [rsplitOnce, hrest, Option.map_eq_some_iff] at h
      obtain ⟨after, hafter, rfl⟩ := h
      rw [List.isPrefixOf?_eq_some_iff_append_eq, List.singleton_append, List.cons.injEq] at hafter
      rw [hafter.2]
      exact rsplitOnce_char_eq_none.mp hrest

/-- The cut is at the last separator, whatever stands before it. -/
theorem rsplitOnce_char_append {sep : Char} (before : Text) {after : Text} (hafter : sep ∉ after) :
    rsplitOnce [sep] (before ++ sep :: after) = some (before, after) := by
  induction before with
  | nil =>
    rw [List.nil_append, rsplitOnce, rsplitOnce_char_eq_none.mpr hafter]
    simp
  | cons c cs ih => rw [List.cons_append, rsplitOnce, ih]

/-! ### Splitting at a separator -/

variable {sep : Char}

/-- No piece of a split holds the separator. -/
theorem not_mem_of_mem_splitOn {s piece : Text} (h : piece ∈ s.splitOn sep) : sep ∉ piece := by
  induction s generalizing piece with
  | nil => simp_all
  | cons c cs ih =>
    rw [List.splitOn_cons_eq_if_modifyHead] at h
    by_cases hc : c = sep
    · simp only [hc, beq_self_eq_true, if_true, List.mem_cons] at h
      rcases h with rfl | h
      · simp
      · exact ih h
    · have hbeq : (c == sep) = false := by simpa using hc
      obtain ⟨head, tail, hsplit⟩ :=
        List.exists_cons_of_ne_nil (List.splitOn_ne_nil sep cs)
      rw [hbeq, hsplit] at h
      simp only [Bool.false_eq_true, if_false, List.modifyHead_cons, List.mem_cons] at h
      rcases h with rfl | h
      · have hhead := ih (hsplit ▸ List.mem_cons_self)
        simp only [List.mem_cons, not_or]
        exact ⟨fun heq => hc heq.symm, hhead⟩
      · exact ih (hsplit ▸ List.mem_cons_of_mem _ h)

/-- Splitting off the piece after the last separator. -/
theorem splitOn_append_sep {l r : Text} (hr : sep ∉ r) :
    (l ++ sep :: r).splitOn sep = l.splitOn sep ++ [r] := by
  rw [List.splitOn_append_cons_self, List.splitOn_eq_singleton hr]

/-- Joining two lists of pieces puts one separator between their joins. -/
theorem intercalate_append {l r : List Text} (hl : l ≠ []) (hr : r ≠ []) :
    [sep].intercalate (l ++ r) = [sep].intercalate l ++ sep :: [sep].intercalate r := by
  induction l with
  | nil => exact absurd rfl hl
  | cons piece pieces ih =>
    by_cases hnil : pieces = []
    · subst hnil
      rw [List.singleton_append, List.intercalate_cons_of_ne_nil hr, List.intercalate_singleton]
      simp
    · rw [List.cons_append, List.intercalate_cons_of_ne_nil (by simp [hnil]), ih hnil,
        List.intercalate_cons_of_ne_nil hnil]
      simp

/-- A character other than the separator is in a text when it is in a piece. -/
theorem mem_iff_splitOn {s : Text} {c : Char} (hc : c ≠ sep) :
    c ∈ s ↔ ∃ piece ∈ s.splitOn sep, c ∈ piece := by
  induction s with
  | nil => simp
  | cons x xs ih =>
    obtain ⟨head, tail, hsplit⟩ := List.exists_cons_of_ne_nil (List.splitOn_ne_nil sep xs)
    rw [List.splitOn_cons_eq_if_modifyHead, List.mem_cons, ih, hsplit]
    by_cases hx : x = sep
    · simp [hx, hc]
    · simp [hx, or_assoc]

/-! ### Lines -/

/-- The lines of a text whose last line is ended. -/
theorem lines_terminated (s : Text) : lines (s ++ ['\n']) = (s.splitOn '\n').map stripCr := by
  have hsplit : (s ++ ['\n']).splitOn '\n' = s.splitOn '\n' ++ [[]] :=
    splitOn_append_sep List.not_mem_nil
  simp [lines, hsplit]

/-- One more line on a text that is empty or whose last line is ended. -/
theorem lines_append_line {s line : Text} (hs : s = [] ∨ s.getLast? = some '\n')
    (hline : '\n' ∉ line) (hcr : stripCr line = line) :
    lines (s ++ (line ++ ['\n'])) = lines s ++ [line] := by
  rcases hs with rfl | hlast
  · rw [List.nil_append, lines_terminated, List.splitOn_eq_singleton hline]
    simp [lines, hcr]
  · obtain ⟨body, rfl⟩ := List.getLast?_eq_some_iff.mp hlast
    have happend : body ++ ['\n'] ++ (line ++ ['\n']) = (body ++ '\n' :: line) ++ ['\n'] := by simp
    rw [happend, lines_terminated, lines_terminated, splitOn_append_sep hline]
    simp [hcr]

theorem stripCr_eq_self {line : Text} (h : '\r' ∉ line) : stripCr line = line := by
  have hnone : ['\r'].isSuffixOf? line = none := by
    rw [isSuffixOf?_eq_none]
    intro hsuffix
    exact h (hsuffix.subset List.mem_cons_self)
  rw [stripCr, hnone]
  rfl

end Text

end AiDaemon
