import AiDaemon.Provenance

/-!
# Taking the markers out (`session.rs`: `defang`, `strip_tag`)

`strip_tag` looks for a tag in a copy in lower case and cuts the original at the
positions where it finds one.  Both are sliced at byte positions, so the two have
to stay in step, and every position has to lie between two characters.
`stripTagBytes` is that loop; it always ends with what `stripTag` makes of the
characters (`stripTagBytes_eq`).

What `defang` leaves is clean (`defang_clean`), and clean text it leaves alone, so
that it makes no difference to do it twice.
-/

namespace AiDaemon.Provenance

open Occurs

/-! ### The source, on bytes -/

/-- `&text[i..]`, where `i` is a character boundary. -/
def sliceFrom : Text → Nat → Option Text
  | text, 0 => some text
  | [], _ + 1 => none
  | c :: cs, i + 1 => if c.utf8Size ≤ i + 1 then sliceFrom cs (i + 1 - c.utf8Size) else none

/-- How many bytes of the slice in lower case a tag covers that starts it. -/
def hitBytes (name rest : Text) : Option Nat :=
  let openTag := '<' :: name
  let closeTag := '<' :: '/' :: name
  if closeTag.isPrefixOf rest then some (Text.byteLen closeTag)
  else if openTag.isPrefixOf rest then some (Text.byteLen openTag)
  else none

/-- The loop of `strip_tag` from the byte `i` on; `none` is a slice off a boundary,
    or a loop that is not over after `fuel` rounds. -/
def stripTagFrom (text name : Text) : Nat → Nat → Text → Option Text
  | 0, _, _ => none
  | fuel + 1, i, out =>
    if i < text.byteLen then
      (sliceFrom (lower text) i).bind fun rest =>
        match hitBytes name rest with
        | some len =>
          stripTagFrom text name fuel (i + len) (out ++ '[' :: "marker removed".toList ++ [']'])
        | none =>
          (sliceFrom text i).bind fun slice => slice.head?.bind fun ch =>
            stripTagFrom text name fuel (i + ch.utf8Size) (out ++ [ch])
    else some out

/-- `strip_tag`. -/
def stripTagBytes (text name : Text) : Option Text :=
  stripTagFrom text name (text.byteLen + 1) 0 []

/-! ### The loop ends, on a boundary -/

theorem byteLen_cons (c : Char) (s : Text) : Text.byteLen (c :: s) = c.utf8Size + s.byteLen := by
  simp [Text.byteLen]

theorem utf8Size_toLower (c : Char) : c.toLower.utf8Size = c.utf8Size := by
  unfold Char.toLower
  split
  · rename_i hupper
    obtain ⟨-, hhigh⟩ := hupper
    simp only [UInt32.le_iff_toNat_le] at hhigh
    change c.val.toNat ≤ 90 at hhigh
    have hsize : c.utf8Size = 1 := by
      rw [Char.utf8Size_eq_one_iff, UInt32.le_iff_toNat_le]
      exact hhigh.trans (by decide)
    rw [hsize, Char.utf8Size_eq_one_iff, UInt32.le_iff_toNat_le, UInt32.toNat_add]
    change (c.val.toNat + 32) % 2 ^ 32 ≤ 127
    omega
  · rfl

theorem byteLen_lower (s : Text) : (lower s).byteLen = s.byteLen := by
  induction s with
  | nil => rfl
  | cons c cs ih => rw [lower_cons, byteLen_cons, byteLen_cons, utf8Size_toLower, ih]

theorem byteLen_pos {s : Text} (h : s ≠ []) : 0 < s.byteLen := by
  obtain ⟨c, cs, rfl⟩ := List.exists_cons_of_ne_nil h
  rw [byteLen_cons]
  exact Nat.add_pos_left c.utf8Size_pos _

theorem sliceFrom_append (a b : Text) : sliceFrom (a ++ b) a.byteLen = some b := by
  induction a with
  | nil =>
    rw [List.nil_append]
    cases b <;> rfl
  | cons c cs ih =>
    have hpos := c.utf8Size_pos
    obtain ⟨n, hn⟩ := Nat.exists_eq_add_of_lt hpos
    have hsum : Text.byteLen (c :: cs) = n + Text.byteLen cs + 1 := by
      rw [byteLen_cons]
      omega
    have hrest : n + Text.byteLen cs + 1 - c.utf8Size = Text.byteLen cs := by omega
    rw [hsum, List.cons_append, sliceFrom, if_pos (by omega), hrest, ih]

/-- A tag covers as many bytes of the original as of the copy. -/
theorem byteLen_take_of_prefix {tag rest : Text} (h : tag <+: lower rest) :
    Text.byteLen (rest.take tag.length) = tag.byteLen := by
  have htake : lower (rest.take tag.length) = tag := by
    rw [lower, List.map_take]
    exact (List.prefix_iff_eq_take.mp h).symm
  rw [← byteLen_lower, htake]

/-- A hit on the bytes is the hit on the characters, and covers its bytes. -/
theorem hitBytes_eq (name rest : Text) :
    hitBytes name (lower rest) = (tagHit name rest).map fun len => Text.byteLen (rest.take len) := by
  unfold hitBytes tagHit
  dsimp only
  split
  · rename_i hclose
    rw [List.isPrefixOf_iff_prefix] at hclose
    rw [Option.map_some, byteLen_take_of_prefix hclose]
  split
  · rename_i hopen
    rw [List.isPrefixOf_iff_prefix] at hopen
    rw [Option.map_some, byteLen_take_of_prefix hopen]
  · rfl

theorem tagHit_pos {name rest : Text} {len : Nat} (h : tagHit name rest = some len) : 0 < len := by
  unfold tagHit at h
  dsimp only at h
  split at h
  · rw [← Option.some.inj h]
    exact Nat.zero_lt_succ _
  split at h
  · rw [← Option.some.inj h]
    exact Nat.zero_lt_succ _
  · cases h

/-- The loop, at a boundary and with a round for every byte that is left. -/
theorem stripTagFrom_eq (name before rest out : Text) {fuel : Nat} (hfuel : rest.byteLen < fuel) :
    stripTagFrom (before ++ rest) name fuel before.byteLen out =
      some (out ++ stripTag rest name) := by
  induction fuel generalizing before rest out with
  | zero => omega
  | succ fuel ih =>
    cases rest with
    | nil =>
      rw [stripTagFrom, List.append_nil, if_neg (Nat.lt_irrefl _)]
      simp [stripTag, rewrite]
    | cons c cs =>
      have hlt : before.byteLen < Text.byteLen (before ++ c :: cs) := by
        rw [Text.byteLen_append]
        have hpos := byteLen_pos (List.cons_ne_nil c cs)
        omega
      have hlower :
          sliceFrom (lower (before ++ c :: cs)) before.byteLen = some (lower (c :: cs)) := by
        rw [lower_append, ← byteLen_lower before, sliceFrom_append]
      rw [stripTagFrom, if_pos hlt, hlower, Option.bind_some, hitBytes_eq]
      cases hhit : tagHit name (c :: cs) with
      | some len =>
        -- on with what follows the tag
        have hpos := tagHit_pos hhit
        have hsplit : before ++ c :: cs =
            (before ++ (c :: cs).take len) ++ (c :: cs).drop len := by
          rw [List.append_assoc, List.take_append_drop]
        have hlen := Text.byteLen_append ((c :: cs).take len) ((c :: cs).drop len)
        rw [List.take_append_drop] at hlen
        have htaken : 0 < Text.byteLen ((c :: cs).take len) := by
          apply byteLen_pos
          simp
          omega
        have hrest := ih (before ++ (c :: cs).take len) ((c :: cs).drop len)
          (out ++ '[' :: "marker removed".toList ++ [']']) (by omega)
        rw [← hsplit, Text.byteLen_append] at hrest
        rw [Option.map_some]
        dsimp only
        rw [hrest]
        obtain ⟨more, rfl⟩ := Nat.exists_eq_add_of_lt hpos
        simp [stripTag, rewrite, hhit, rewrite_skip]
      | none =>
        have hslice : sliceFrom (before ++ c :: cs) before.byteLen = some (c :: cs) :=
          sliceFrom_append _ _
        have hrest := ih (before ++ [c]) cs (out ++ [c]) (by
          rw [byteLen_cons] at hfuel
          have hpos := c.utf8Size_pos
          omega)
        rw [Text.byteLen_append, byteLen_cons] at hrest
        rw [Option.map_none, hslice]
        simp [stripTag, rewrite, hhit, Text.byteLen] at hrest ⊢
        exact hrest

/-- **`strip_tag` ends**, and every slice it takes is on a boundary. -/
theorem stripTagBytes_eq (text name : Text) : stripTagBytes text name = some (stripTag text name) :=
  stripTagFrom_eq name [] text [] (Nat.lt_succ_self _)

/-! ### Clean text is left alone -/

theorem tagHit_eq_none {name rest : Text} (hopen : ¬ '<' :: name <+: lower rest)
    (hclose : ¬ '<' :: '/' :: name <+: lower rest) : tagHit name rest = none := by
  rw [← List.isPrefixOf_iff_prefix] at hopen hclose
  simp only [tagHit, if_neg hopen, if_neg hclose]

theorem stripTag_eq_self {text name : Text} (hopen : Absent ('<' :: name) (lower text))
    (hclose : Absent ('<' :: '/' :: name) (lower text)) : stripTag text name = text := by
  apply rewrite_eq_self
  rintro t ⟨before, rfl⟩ -
  have habsent : ∀ {tag : Text}, Absent tag (lower (before ++ t)) → ¬ tag <+: lower t := by
    intro tag h hstands
    have hat : OccursAt tag (lower t) 0 := hstands
    have hin := hat.append_left (lower before)
    rw [← lower_append] at hin
    exact h _ hin
  exact tagHit_eq_none (habsent hopen) (habsent hclose)

theorem stripTags_eq_self {names : List Text} {text : Text}
    (h : ∀ name ∈ names, Absent ('<' :: name) (lower text) ∧
      Absent ('<' :: '/' :: name) (lower text)) : names.foldl stripTag text = text := by
  induction names with
  | nil => rfl
  | cons name names ih =>
    obtain ⟨hopen, hclose⟩ := h name List.mem_cons_self
    rw [List.foldl_cons, stripTag_eq_self hopen hclose]
    exact ih fun name hmem => h name (List.mem_cons_of_mem _ hmem)

theorem occursAt_of_contains {nonce text : Text} (h : contains text nonce = true) :
    ∃ i, OccursAt nonce text i := by
  obtain ⟨t, ht, hstands⟩ := List.any_eq_true.mp h
  rw [List.mem_tails] at ht
  rw [List.isPrefixOf_iff_prefix] at hstands
  obtain ⟨before, rfl⟩ := ht
  have hat : OccursAt nonce t 0 := hstands
  exact ⟨before.length + 0, hat.append_left before⟩

theorem defang_eq_self {nonce text : Text} (h : Clean nonce text) : defang text nonce = text := by
  have hnonce : ¬ (contains text nonce = true ∧ nonce ≠ []) := by
    rintro ⟨hcontains, -⟩
    obtain ⟨i, hoccurs⟩ := occursAt_of_contains hcontains
    exact h.nonce i hoccurs
  rw [defang, if_neg hnonce]
  apply stripTags_eq_self
  intro name hname
  constructor
  · apply h.markers
    exact List.mem_flatMap.mpr ⟨name, hname, List.mem_cons_self⟩
  · apply h.markers
    exact List.mem_flatMap.mpr ⟨name, hname, List.mem_cons_of_mem _ List.mem_cons_self⟩

/-- **Defanging takes the markers and the nonce out**, leaves text without them
    alone, and need not be done twice; its loops end and slice on boundaries. -/
theorem defang_exact (nonce : Text) (hnonce : IsNonce nonce) (text : Text) :
    Clean nonce (defang text nonce) ∧ (Clean nonce text → defang text nonce = text) ∧
      defang (defang text nonce) nonce = defang text nonce ∧
      ∀ name, stripTagBytes text name = some (stripTag text name) :=
  ⟨defang_clean hnonce text, defang_eq_self, defang_eq_self (defang_clean hnonce text),
    stripTagBytes_eq text⟩

/-- The pieces of a policy block around a nonce do not make a new one. -/
theorem defang_exact_seam :
    Clean exampleNonce (defang ("é<pol".toList ++ exampleNonce ++ "icy><POLICY".toList)
      exampleNonce) :=
  (defang_exact exampleNonce exampleNonce_isNonce _).1

end AiDaemon.Provenance
