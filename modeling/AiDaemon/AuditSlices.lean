import AiDaemon.Audit

/-!
# The messages of the verifiers

A verifier that finds a broken link says so with the first sixteen bytes of what
the line carries.  That is a string out of the file, and a slice of a string
panics when it ends inside a character.  The hash it is compared with is sliced
too, but is hexadecimal digits.

So both verifiers answer, and answer what they should, exactly when the record
at which the chain breaks off carries no text with a character across byte
sixteen (`verifiers_answer_iff`); a `prev` in most scripts but Latin is one that
crashes them (`verifiers_panic`).
-/

namespace AiDaemon.Audit

open Json HashChain

/-! ### Slices -/

/-- Byte `n` of the text is inside a character. -/
def Straddles (n : Nat) (text : Text) : Prop :=
  ∃ before c after, text = before ++ c :: after ∧ Text.byteLen before < n ∧
    n < Text.byteLen before + c.utf8Size

theorem byteLen_cons (c : Char) (cs : Text) :
    Text.byteLen (c :: cs) = c.utf8Size + Text.byteLen cs := by
  simp [Text.byteLen]

theorem straddles_nil (n : Nat) : ¬ Straddles n [] := by
  rintro ⟨before, c, after, h, -, -⟩
  simp at h

theorem straddles_cons {n : Nat} {c : Char} {cs : Text} :
    Straddles n (c :: cs) ↔
      (0 < n ∧ n < c.utf8Size) ∨ c.utf8Size ≤ n ∧ Straddles (n - c.utf8Size) cs := by
  constructor
  · rintro ⟨before, d, after, h, hbefore, hafter⟩
    cases before with
    | nil =>
      obtain ⟨rfl, -⟩ := List.cons.inj h
      exact Or.inl ⟨hbefore, by simpa [Text.byteLen] using hafter⟩
    | cons b before =>
      obtain ⟨rfl, rfl⟩ := List.cons.inj h
      rw [byteLen_cons] at hbefore hafter
      exact Or.inr ⟨by omega, before, d, after, rfl, by omega, by omega⟩
  · rintro (⟨hpos, hlt⟩ | ⟨hle, before, d, after, rfl, hbefore, hafter⟩)
    · exact ⟨[], c, cs, rfl, hpos, by simpa [Text.byteLen] using hlt⟩
    · refine ⟨c :: before, d, after, rfl, ?_, ?_⟩
      · rw [byteLen_cons]
        omega
      · rw [byteLen_cons]
        omega

theorem sliceTo_cons {n : Nat} (hpos : 0 < n) (c : Char) (cs : Text) :
    sliceTo n (c :: cs) =
      if c.utf8Size ≤ n then (sliceTo (n - c.utf8Size) cs).map (c :: ·) else none := by
  obtain ⟨m, rfl⟩ := Nat.exists_eq_succ_of_ne_zero hpos.ne'
  rfl

/-- A slice that does not reach past the end panics only inside a character. -/
theorem sliceTo_eq_none {n : Nat} {text : Text} :
    sliceTo (min n text.byteLen) text = none ↔ Straddles n text := by
  induction text generalizing n with
  | nil => simp [Text.byteLen, sliceTo, straddles_nil]
  | cons c cs ih =>
    have hsize := c.utf8Size_pos
    rw [straddles_cons, byteLen_cons]
    rcases Nat.eq_zero_or_pos n with rfl | hpos
    · simp [sliceTo, Nat.not_le_of_lt hsize]
    · rw [sliceTo_cons (by omega)]
      by_cases hle : c.utf8Size ≤ n
      · have hrest : min n (c.utf8Size + Text.byteLen cs) - c.utf8Size =
            min (n - c.utf8Size) (Text.byteLen cs) := by omega
        rw [if_pos (by omega), hrest, Option.map_eq_none_iff, ih]
        simp only [hle, Nat.not_lt.mpr hle, and_false, false_or, true_and]
      · rw [if_neg (by omega)]
        simp only [hle, false_and, or_false, true_iff]
        omega

/-- One byte a character leaves nothing to be inside of. -/
theorem not_straddles_of_ascii {n : Nat} {text : Text} (h : ∀ c ∈ text, c.utf8Size = 1) :
    ¬ Straddles n text := by
  rintro ⟨before, c, after, rfl, hbefore, hafter⟩
  rw [h c (by simp)] at hafter
  omega

theorem utf8Size_of_isHexDigit {c : Char} (h : Text.isHexDigit c = true) : c.utf8Size = 1 := by
  simp only [Text.isHexDigit, Char.isDigit, Bool.or_eq_true, Bool.and_eq_true, decide_eq_true_eq,
    Char.le_def] at h
  have hsmall : c.val ≤ 127 := by
    rcases h with (⟨-, h⟩ | ⟨-, h⟩) | ⟨-, h⟩
    · exact UInt32.le_trans h (by decide)
    · exact UInt32.le_trans h (by decide)
    · exact UInt32.le_trans h (by decide)
  exact if_pos hsmall

/-! ### What stops a verifier -/

theorem clipped_eq_panicked {hash : Text} {message : Text → Text} :
    clipped hash message = .panicked ↔ Straddles 16 hash := by
  rw [← sliceTo_eq_none, clipped]
  cases sliceTo (min 16 hash.byteLen) hash with
  | none => simp
  | some start => simp

theorem brokenLink_eq_panicked (number : Nat) {want : Text} (hwant : ¬ Straddles 16 want)
    (got : Text) :
    brokenLink number want got = .panicked ↔ Straddles 16 got := by
  rw [← sliceTo_eq_none] at hwant
  obtain ⟨wanted, hwanted⟩ := Option.ne_none_iff_exists'.mp hwant
  rw [brokenLink, hwanted]
  exact clipped_eq_panicked

variable {F : Type} {floats : Floats F} {hashLine parseError : Text → Text}

/-- A chain holds up to a record that carries `p`, and `p` is not what it should
    carry. -/
def BreaksAt (floats : Floats F) (hashLine : Text → Text) (expected : Option Text)
    (lines : List Text) (p : Text) : Prop :=
  ∃ before line after, lines = before ++ line :: after ∧ Chained floats hashLine expected before ∧
    carried floats line = some p ∧ head hashLine expected before ≠ some p

theorem not_breaksAt_nil {expected : Option Text} {p : Text} :
    ¬ BreaksAt floats hashLine expected [] p := by
  rintro ⟨before, line, after, h, -⟩
  simp at h

theorem breaksAt_cons {expected : Option Text} {line : Text} {lines : List Text} {p : Text} :
    BreaksAt floats hashLine expected (line :: lines) p ↔
      (carried floats line = some p ∧ expected ≠ some p) ∨
        ((fromStr floats line).isSome ∧ carried floats line = expected) ∧
          BreaksAt floats hashLine (some (hashLine line)) lines p := by
  constructor
  · rintro ⟨before, line', after, h, hchained, hcarried, hbroken⟩
    cases before with
    | nil =>
      obtain ⟨rfl, -⟩ := List.cons.inj h
      exact Or.inl ⟨hcarried, hbroken⟩
    | cons b before =>
      obtain ⟨rfl, rfl⟩ := List.cons.inj h
      rw [chained_cons] at hchained
      rw [head_cons] at hbroken
      exact Or.inr ⟨hchained.1, before, line', after, rfl, hchained.2, hcarried, hbroken⟩
  · rintro (⟨hcarried, hbroken⟩ | ⟨hline, before, line', after, rfl, hchained, hcarried, hbroken⟩)
    · exact ⟨[], line, lines, rfl, ⟨by simp, trivial⟩, hcarried, hbroken⟩
    · refine ⟨line :: before, line', after, rfl, chained_cons.mpr ⟨hline, hchained⟩, hcarried, ?_⟩
      rwa [head_cons]

/-- What one record does to the run: it stops it with a message, it stops it in
    the middle of one, or it is passed. -/
theorem verifyLines_panics_cons {number checked : Nat} {expected : Option Text} {line : Text}
    {lines : List Text} (hexpected : ∀ want, expected = some want → ¬ Straddles 16 want)
    (hblank : isBlankLine line = false) :
    verifyLines floats hashLine parseError number expected checked (line :: lines) =
        .error .panicked ↔
      (∃ p, (carried floats line = some p ∧ expected ≠ some p) ∧ Straddles 16 p) ∨
        ((fromStr floats line).isSome ∧ carried floats line = expected) ∧
          verifyLines floats hashLine parseError (number + 1) (some (hashLine line)) (checked + 1)
            lines = .error .panicked := by
  rw [verifyLines, hblank, carried]
  cases hparse : fromStr floats line with
  | none => simp [notARecord]
  | some record =>
    simp only [Bool.false_eq_true, if_false, Option.isSome_some, Option.bind_some, true_and]
    cases hlink : (record.get "prev".toList).bind Value.asStr with
    | none =>
      cases expected with
      | none => simp
      | some want => simp [noLink]
    | some got =>
      cases expected with
      | none => simp [missingBefore, clipped_eq_panicked]
      | some want =>
        by_cases hsame : want = got
        · simp [hsame]
        · have hpanic := brokenLink_eq_panicked number (hexpected want rfl) got
          simp [hsame, Ne.symm hsame, hpanic]

/-- **What crashes a verifier**: the text that the first unlinked record carries. -/
theorem verifyLines_eq_panicked (hhash : ∀ line, (hashLine line).all Text.isHexDigit = true)
    {number checked : Nat} {expected : Option Text} {lines : List Text}
    (hexpected : ∀ want, expected = some want → ¬ Straddles 16 want) :
    verifyLines floats hashLine parseError number expected checked lines = .error .panicked ↔
      ∃ p, BreaksAt floats hashLine expected (lines.filter fun line => !isBlankLine line) p ∧
        Straddles 16 p := by
  induction lines generalizing number expected checked with
  | nil => simp [verifyLines, not_breaksAt_nil]
  | cons line lines ih =>
    cases hblank : isBlankLine line with
    | true =>
      rw [verifyLines, hblank, if_pos rfl, ih hexpected,
        List.filter_cons_of_neg (by simp [hblank])]
    | false =>
      have hnext : ∀ want, some (hashLine line) = some want → ¬ Straddles 16 want := by
        rintro want ⟨⟩
        exact not_straddles_of_ascii fun c hc =>
          utf8Size_of_isHexDigit (List.all_eq_true.mp (hhash line) c hc)
      rw [verifyLines_panics_cons hexpected hblank, ih hnext,
        List.filter_cons_of_pos (by simp [hblank])]
      simp only [breaksAt_cons, or_and_right, exists_or, and_assoc, exists_and_left]

/-! ### What a verifier answers -/

/-- The verdict is an answer, and `Ok` only for a whole chain. -/
def Answers (floats : Floats F) (hashLine : Text → Text) (text : Text)
    (verdict : Except Fault Nat) : Prop :=
  verdict ≠ .error .panicked ∧
    ∀ n, verdict = .ok n → Chained floats hashLine none (records text)

/-- **The verifiers answer** for a file exactly when the record at which its
    chain breaks off, if it does at a link, carries no text with a character
    across byte sixteen. -/
theorem verifiers_answer_iff (floats : Floats F) (hashLine parseError : Text → Text)
    (hhash : ∀ line, (hashLine line).all Text.isHexDigit = true) (path text : Text) :
    (Answers floats hashLine text (verify floats hashLine parseError path (.ok text)) ∧
        Answers floats hashLine text (Aidctl.verify floats hashLine parseError path (.ok text))) ↔
      ∀ p, BreaksAt floats hashLine none (records text) p → ¬ Straddles 16 p := by
  have hpanic : verifyLines floats hashLine parseError 1 none 0 text.lines = .error .panicked ↔
      ∃ p, BreaksAt floats hashLine none (records text) p ∧ Straddles 16 p :=
    verifyLines_eq_panicked hhash (by simp)
  have hsound : ∀ n, verify floats hashLine parseError path (.ok text) = .ok n →
      Chained floats hashLine none (records text) := fun n h => (verify_eq_ok.mp h).1
  rw [Aidctl.verify_eq, and_self]
  constructor
  · rintro ⟨hanswer, -⟩ p hbreaks hstraddles
    exact hanswer (hpanic.mpr ⟨p, hbreaks, hstraddles⟩)
  · intro h
    refine ⟨?_, hsound⟩
    intro hverify
    obtain ⟨p, hbreaks, hstraddles⟩ := hpanic.mp hverify
    exact h p hbreaks hstraddles

/-- A digest of nothing but zeros. -/
def zeros (_ : Text) : Text := List.replicate 64 '0'

theorem zeros_hex (line : Text) : (zeros line).all Text.isHexDigit = true := rfl

/-- A file of one record without a link. -/
theorem verifiers_answer_one :
    Answers noFloats zeros "\x7b\x7d".toList (verify noFloats zeros id [] (.ok "\x7b\x7d".toList)) ∧
      Answers noFloats zeros "\x7b\x7d".toList
        (Aidctl.verify noFloats zeros id [] (.ok "\x7b\x7d".toList)) := by
  refine (verifiers_answer_iff noFloats zeros id zeros_hex [] "\x7b\x7d".toList).mpr ?_
  rintro p ⟨before, line, after, hlines, -, hcarried, -⟩
  have hone : records "\x7b\x7d".toList = ["\x7b\x7d".toList] := by decide
  have hmem : line ∈ records "\x7b\x7d".toList := by
    rw [hlines]
    simp
  rw [hone, List.mem_singleton] at hmem
  subst hmem
  cases hcarried

/-- A link of one Latin letter and eight Cyrillic ones. -/
def cyrillicLink : Text := "\x7b\"prev\":\"aжжжжжжжж\"\x7d".toList

/-- **A verifier crashes** on a file of one line. -/
theorem verifiers_panic :
    ¬ ∀ hashLine : Text → Text, (∀ line, (hashLine line).all Text.isHexDigit = true) →
      ∀ path text, Answers noFloats hashLine text (verify noFloats hashLine id path (.ok text)) ∧
        Answers noFloats hashLine text (Aidctl.verify noFloats hashLine id path (.ok text)) := by
  intro h
  exact (h zeros zeros_hex [] cyrillicLink).1.1 (by decide +kernel)

end AiDaemon.Audit
