import AiDaemon.Fallible
import AiDaemon.InflateCodes

/-!
# How far inflating goes (`inflate`, `block`: `max_output`)

`block` looks at the limit before every symbol, so a block of symbols ends within
it and is over it by one back-reference at most while it lasts.  A stored block is
appended without a look.  The limit is kept exactly when no stored block that
inflating comes to is past it: by nothing if it is the last block, and by no more
than a back-reference if it is not, since the next block may still be refused
(`limit_kept_iff`).

`held` is every buffer that inflating holds after it appended something.
-/

namespace AiDaemon.Inflate

open Checked Fallible

variable {bytes : List UInt8} {maxOutput : Nat}

/-! ### What inflating holds -/

/-- The codes `dynamic` blocks start with; the rest of `dynamicBlock` is `block`. -/
def dynamicCodes (bytes : List UInt8) (position : Nat) : Result (Huffman × Huffman × Nat) := do
  let (n, position) ← bits bytes 5 position
  let hlit := n + 257
  let (n, position) ← bits bytes 5 position
  let hdist := n + 1
  let (n, position) ← bits bytes 4 position
  let hclen := n + 4
  let (codes, position) ← codeLengths bytes (order.take hclen) position (List.replicate 19 0)
  let huffman ← Huffman.new codes
  let (position, index, lengths) ←
    lengthsLoop bytes huffman (hlit + hdist + 1) position 0 (List.replicate (hlit + hdist) 0)
  if index > lengths.length then fail overrunText
  else do
    let literals ← slice lengths 0 hlit
    let literals ← Huffman.new literals
    let distances ← slice lengths hlit lengths.length
    let distances ← Huffman.new distances
    return (literals, distances, position)

def fixedCodes (position : Nat) : Result (Huffman × Huffman × Nat) := do
  let literals ← Huffman.new fixedLengths
  let distances ← Huffman.new (List.replicate 30 5)
  return (literals, distances, position)

/-- The codes of a block of symbols, and where the symbols start. -/
def blockCodes (bytes : List UInt8) (kind position : Nat) : Result (Huffman × Huffman × Nat) :=
  if kind = 1 then fixedCodes position
  else if kind = 2 then dynamicCodes bytes position
  else fail "reserved deflate block type".toList

/-- The buffers on the way from `out` to `next`, byte by byte. -/
def pushes (out next : List UInt8) : List (List UInt8) :=
  (List.range (next.length - out.length)).map fun k => next.take (out.length + k + 1)

/-- The buffers of `blockLoop`. A back-reference that fails does so before it copies. -/
def blockHeld (bytes : List UInt8) (literals distances : Huffman) (maxOutput : Nat) :
    Nat → Nat → List UInt8 → List (List UInt8)
  | 0, _, _ => []
  | fuel + 1, position, out =>
    if out.length > maxOutput then []
    else
      match literals.decode bytes position with
      | .error _ => []
      | .ok (symbol, position) =>
        if symbol ≤ 255 then
          (out ++ [UInt8.ofNat symbol]) ::
            blockHeld bytes literals distances maxOutput fuel position (out ++ [UInt8.ofNat symbol])
        else if symbol = 256 then []
        else if symbol ≤ 285 then
          match backReference bytes distances symbol position out with
          | .error _ => []
          | .ok (position, next) =>
            pushes out next ++ blockHeld bytes literals distances maxOutput fuel position next
        else []

/-- A block that inflating comes to: whether it is the last, its kind, where it goes
    on, and what is in the buffer. -/
structure BlockRead where
  final : Nat
  kind : Nat
  position : Nat
  out : List UInt8

/-- The data of the stored block at a position, where it can be read. -/
def storedData (bytes : List UInt8) (position : Nat) : Result (List UInt8) :=
  Prod.snd <$> storedBlock bytes position []

/-- The buffers of one block. -/
def BlockRead.held (bytes : List UInt8) (maxOutput : Nat) (b : BlockRead) : List (List UInt8) :=
  if b.kind = 0 then
    match storedData bytes b.position with
    | .error _ => []
    | .ok data => [b.out ++ data]
  else
    match blockCodes bytes b.kind b.position with
    | .error _ => []
    | .ok (literals, distances, position) =>
      blockHeld bytes literals distances maxOutput (8 * bytes.length + 1) position b.out

/-- The blocks that `inflateLoop` comes to. -/
def inflateBlocks (bytes : List UInt8) (maxOutput : Nat) :
    Nat → Nat → List UInt8 → List BlockRead
  | 0, _, _ => []
  | fuel + 1, position, out =>
    match bit bytes position with
    | .error _ => []
    | .ok (final, position) =>
      match bits bytes 2 position with
      | .error _ => []
      | .ok (kind, position) =>
        ⟨final, kind, position, out⟩ ::
          match anyBlock bytes maxOutput kind position out with
          | .error _ => []
          | .ok (position, out) =>
            if final = 1 then [] else inflateBlocks bytes maxOutput fuel position out

def blocksRead (bytes : List UInt8) (maxOutput : Nat) : List BlockRead :=
  inflateBlocks bytes maxOutput (8 * bytes.length + 1) 0 []

def held (bytes : List UInt8) (maxOutput : Nat) : List (List UInt8) :=
  (blocksRead bytes maxOutput).flatMap (BlockRead.held bytes maxOutput)

/-- What is returned is within the limit, and what is held on the way over it by no
    more than the longest back-reference. -/
structure LimitKept (bytes : List UInt8) (maxOutput : Nat) : Prop where
  returned : ∀ out, inflate bytes maxOutput = .ok out → out.length ≤ maxOutput
  held : ∀ buffer ∈ held bytes maxOutput, buffer.length ≤ maxOutput + 258

/-- A stored block leaves the buffer within the limit, or over it by as much as is
    allowed on the way. -/
def BlockRead.Fits (bytes : List UInt8) (maxOutput : Nat) (b : BlockRead) : Prop :=
  b.kind = 0 → ∀ data, storedData bytes b.position = .ok data →
    b.out.length + data.length ≤ maxOutput + if b.final = 1 then 0 else 258

/-! ### Blocks of symbols look at the limit -/

theorem dynamicBlock_eq (position : Nat) (out : List UInt8) :
    dynamicBlock bytes maxOutput position out =
      dynamicCodes bytes position >>= fun (literals, distances, position) =>
        block bytes literals distances maxOutput position out := by
  simp only [dynamicBlock, dynamicCodes, bind_assoc]
  refine bind_congr fun _ => bind_congr fun _ => bind_congr fun _ => bind_congr fun _ =>
    bind_congr fun _ => bind_congr fun _ => ?_
  split
  · rfl
  · simp only [bind_assoc, pure_bind]

theorem fixedBlock_eq (position : Nat) (out : List UInt8) :
    fixedBlock bytes maxOutput position out =
      fixedCodes position >>= fun (literals, distances, position) =>
        block bytes literals distances maxOutput position out := by
  simp only [fixedBlock, fixedCodes, bind_assoc, pure_bind]

theorem anyBlock_codes {kind : Nat} (hkind : kind ≠ 0) (position : Nat) (out : List UInt8) :
    anyBlock bytes maxOutput kind position out =
      blockCodes bytes kind position >>= fun (literals, distances, position) =>
        block bytes literals distances maxOutput position out := by
  rw [anyBlock, if_neg hkind, blockCodes, fixedBlock_eq, dynamicBlock_eq]
  split
  · rfl
  split <;> rfl

/-- A stored block appends its data. -/
theorem storedBlock_eq (position : Nat) (out : List UInt8) :
    storedBlock bytes position out =
      (fun (next, data) => (next, out ++ data)) <$> storedBlock bytes position [] := by
  unfold storedBlock
  simp only [map_bind]
  refine bind_congr fun _ => bind_congr fun _ => ?_
  split
  · rfl
  simp only [map_bind]
  refine bind_congr fun _ => bind_congr fun _ => ?_
  split
  · rfl
  split
  · rfl
  split
  · rfl
  simp

theorem length_copyLoop {start remaining offset : Nat} {out next : List UInt8}
    (h : copyLoop start remaining offset out = .ok next) : next.length = out.length + remaining := by
  induction remaining generalizing offset out with
  | zero =>
    simp only [copyLoop, pure_eq, Except.ok.injEq] at h
    rw [← h, Nat.add_zero]
  | succ remaining ih =>
    obtain ⟨byte, -, hrest⟩ := bind_eq_ok.mp h
    rw [ih hrest, List.length_append, List.length_singleton]
    omega

theorem bit_le_one {position b next : Nat} (h : bit bytes position = .ok (b, next)) : b ≤ 1 := by
  unfold bit at h
  split at h
  · cases h
  · obtain ⟨_, -, hb⟩ := bind_eq_ok.mp h
    simp only [pure_eq, Except.ok.injEq, Prod.mk.injEq, Nat.and_one_is_mod] at hb
    omega

theorem shl32_lt {b index shifted : Nat} (hb : b ≤ 1) (h : shl32 b index = .ok shifted) :
    shifted < 2 ^ (index + 1) := by
  unfold shl32 at h
  split at h
  · have hle : b * 2 ^ index ≤ 1 * 2 ^ index := Nat.mul_le_mul_right _ hb
    have hmod := Nat.mod_le (b <<< index) (2 ^ 32)
    rw [Except.ok.injEq] at h
    rw [Nat.shiftLeft_eq] at h hmod
    rw [Nat.pow_succ]
    have hpos := Nat.two_pow_pos index
    omega
  · cases h

theorem bitsLoop_lt {count index value position n next : Nat} (hvalue : value < 2 ^ index)
    (h : bitsLoop bytes count index value position = .ok (n, next)) : n < 2 ^ (index + count) := by
  induction count generalizing index value position with
  | zero =>
    simp only [bitsLoop, pure_eq, Except.ok.injEq, Prod.mk.injEq] at h
    rw [← h.1]
    exact hvalue
  | succ count ih =>
    obtain ⟨⟨b, position'⟩, hbit, h⟩ := bind_eq_ok.mp h
    obtain ⟨shifted, hshift, h⟩ := bind_eq_ok.mp h
    have hraised : value < 2 ^ (index + 1) :=
      hvalue.trans_le (Nat.pow_le_pow_right (by decide) (Nat.le_succ index))
    have hn := ih (Nat.or_lt_two_pow hraised (shl32_lt (bit_le_one hbit) hshift)) h
    rwa [Nat.add_right_comm] at hn

theorem longest_reference : ∀ index < 29, ∀ base ∈ lengthBase[index]?,
    ∀ extra ∈ lengthExtra[index]?, base + 2 ^ extra ≤ 259 := by
  decide

/-- No length is over 258. -/
theorem length_backReference {distances : Huffman} {symbol position next : Nat}
    {out after : List UInt8}
    (h : backReference bytes distances symbol position out = .ok (next, after)) :
    after.length ≤ out.length + 258 := by
  obtain ⟨index, -, h⟩ := bind_eq_ok.mp h
  obtain ⟨base, hbase, h⟩ := bind_eq_ok.mp h
  obtain ⟨extra, hextra, h⟩ := bind_eq_ok.mp h
  obtain ⟨⟨n, position⟩, hn, h⟩ := bind_eq_ok.mp h
  obtain ⟨length, hlength, h⟩ := bind_eq_ok.mp h
  obtain ⟨⟨distanceSymbol, position⟩, -, h⟩ := bind_eq_ok.mp h
  dsimp only at h
  split at h
  · cases h
  obtain ⟨distanceBase, -, h⟩ := bind_eq_ok.mp h
  obtain ⟨distanceExtra, -, h⟩ := bind_eq_ok.mp h
  obtain ⟨⟨m, position⟩, -, h⟩ := bind_eq_ok.mp h
  obtain ⟨distance, -, h⟩ := bind_eq_ok.mp h
  dsimp only at h
  split at h
  · cases h
  obtain ⟨start, -, h⟩ := bind_eq_ok.mp h
  obtain ⟨copied, hcopied, h⟩ := bind_eq_ok.mp h
  simp only [pure_eq, Except.ok.injEq, Prod.mk.injEq] at h
  rw [get_eq_ok] at hbase hextra
  have hindex : index < 29 := (List.getElem?_eq_some_iff.mp hbase).1
  have hlong := longest_reference index hindex base hbase extra hextra
  have hsmall : n < 2 ^ (0 + extra) := bitsLoop_lt (by decide) hn
  rw [Nat.zero_add] at hsmall
  have hsum := (fits_eq_ok.mp hlength).2
  have hcopy := length_copyLoop hcopied
  rw [← h.2]
  omega

/-- A block of symbols ends within the limit. -/
theorem blockLoop_le {literals distances : Huffman} {fuel position next : Nat}
    {out after : List UInt8}
    (h : blockLoop bytes literals distances maxOutput fuel position out = .ok (next, after)) :
    after.length ≤ maxOutput := by
  induction fuel generalizing position out with
  | zero => cases h
  | succ fuel ih =>
    rw [blockLoop] at h
    split at h
    · cases h
    rename_i hlimit
    obtain ⟨⟨symbol, position'⟩, -, h⟩ := bind_eq_ok.mp h
    dsimp only at h
    split at h
    · exact ih h
    split at h
    · simp only [pure_eq, Except.ok.injEq, Prod.mk.injEq] at h
      rw [← h.2]
      exact Nat.le_of_not_lt hlimit
    split at h
    · obtain ⟨⟨position'', out'⟩, -, h⟩ := bind_eq_ok.mp h
      exact ih h
    · cases h

theorem mem_pushes {out next buffer : List UInt8} (h : buffer ∈ pushes out next) :
    buffer.length ≤ next.length := by
  obtain ⟨k, -, rfl⟩ := List.mem_map.mp h
  exact List.length_take_le' _ _

/-- And goes over it by a back-reference at most. -/
theorem blockHeld_le {literals distances : Huffman} {fuel position : Nat} {out : List UInt8} :
    ∀ buffer ∈ blockHeld bytes literals distances maxOutput fuel position out,
      buffer.length ≤ maxOutput + 258 := by
  induction fuel generalizing position out with
  | zero =>
    intro buffer hmem
    cases hmem
  | succ fuel ih =>
    intro buffer hmem
    rw [blockHeld] at hmem
    split at hmem
    · cases hmem
    rename_i hlimit
    split at hmem
    · cases hmem
    split at hmem
    · rcases List.mem_cons.mp hmem with rfl | hrest
      · rw [List.length_append, List.length_singleton]
        omega
      · exact ih buffer hrest
    split at hmem
    · cases hmem
    split at hmem
    · split at hmem
      · cases hmem
      · rename_i hreference
        have hle := length_backReference hreference
        rcases List.mem_append.mp hmem with hpush | hrest
        · have hshort := mem_pushes hpush
          omega
        · exact ih buffer hrest
    · cases hmem

/-! ### Stored blocks do not -/

theorem storedData_of_ok {position next : Nat} {out after : List UInt8}
    (h : storedBlock bytes position out = .ok (next, after)) :
    ∃ data, storedData bytes position = .ok data ∧ after = out ++ data := by
  rw [storedBlock_eq] at h
  unfold storedData
  cases hdata : storedBlock bytes position [] with
  | error e =>
    rw [hdata] at h
    cases h
  | ok r =>
    rw [hdata] at h
    cases h
    exact ⟨r.2, rfl, rfl⟩

theorem storedBlock_of_data {position : Nat} {data : List UInt8}
    (h : storedData bytes position = .ok data) (out : List UInt8) :
    ∃ next, storedBlock bytes position out = .ok (next, out ++ data) := by
  unfold storedData at h
  rw [storedBlock_eq]
  cases hdata : storedBlock bytes position [] with
  | error e =>
    rw [hdata] at h
    cases h
  | ok r =>
    rw [hdata] at h
    cases h
    exact ⟨r.1, rfl⟩

/-- A block that fits returns within the limit, if it is the last. -/
theorem BlockRead.Fits.returns {b : BlockRead} (hfits : b.Fits bytes maxOutput) {next : Nat}
    {out : List UInt8} (h : anyBlock bytes maxOutput b.kind b.position b.out = .ok (next, out))
    (hfinal : b.final = 1) : out.length ≤ maxOutput := by
  by_cases hkind : b.kind = 0
  · rw [anyBlock, if_pos hkind] at h
    obtain ⟨data, hdata, rfl⟩ := storedData_of_ok h
    have hlength := hfits hkind data hdata
    rw [if_pos hfinal] at hlength
    rw [List.length_append]
    omega
  · rw [anyBlock_codes hkind] at h
    obtain ⟨⟨literals, distances, position⟩, -, h⟩ := bind_eq_ok.mp h
    exact blockLoop_le h

theorem BlockRead.Fits.holds {b : BlockRead} (hfits : b.Fits bytes maxOutput) {buffer : List UInt8}
    (hmem : buffer ∈ b.held bytes maxOutput) : buffer.length ≤ maxOutput + 258 := by
  unfold BlockRead.held at hmem
  split at hmem
  · rename_i hkind
    split at hmem
    · cases hmem
    · rename_i data hdata
      have hlength := hfits hkind data hdata
      rw [List.mem_singleton.mp hmem, List.length_append]
      split at hlength <;> omega
  · split at hmem
    · cases hmem
    · exact blockHeld_le buffer hmem

section Loop

variable {fuel position : Nat} {out : List UInt8}

theorem inflateBlocks_succ {final kind position' position'' : Nat}
    (hfinal : bit bytes position = .ok (final, position'))
    (hkind : bits bytes 2 position' = .ok (kind, position'')) :
    inflateBlocks bytes maxOutput (fuel + 1) position out =
      ⟨final, kind, position'', out⟩ ::
        match anyBlock bytes maxOutput kind position'' out with
        | .error _ => []
        | .ok (position, out) =>
          if final = 1 then [] else inflateBlocks bytes maxOutput fuel position out := by
  rw [inflateBlocks, hfinal]
  dsimp only
  rw [hkind]

/-- How a block comes to be read: it is the one at the position, or one behind it. -/
theorem mem_inflateBlocks {b : BlockRead}
    (h : b ∈ inflateBlocks bytes maxOutput (fuel + 1) position out) :
    ∃ final position' kind position'', bit bytes position = .ok (final, position') ∧
      bits bytes 2 position' = .ok (kind, position'') ∧
      (b = ⟨final, kind, position'', out⟩ ∨ final ≠ 1 ∧ ∃ next out',
        anyBlock bytes maxOutput kind position'' out = .ok (next, out') ∧
        b ∈ inflateBlocks bytes maxOutput fuel next out') := by
  cases hfinal : bit bytes position with
  | error e =>
    rw [inflateBlocks, hfinal] at h
    cases h
  | ok final =>
    obtain ⟨final, position'⟩ := final
    cases hkind : bits bytes 2 position' with
    | error e =>
      rw [inflateBlocks, hfinal] at h
      dsimp only at h
      rw [hkind] at h
      cases h
    | ok kind =>
      obtain ⟨kind, position''⟩ := kind
      refine ⟨final, position', kind, position'', rfl, hkind, ?_⟩
      rw [inflateBlocks_succ hfinal hkind] at h
      refine (List.mem_cons.mp h).imp_right fun hrest => ?_
      cases hblock : anyBlock bytes maxOutput kind position'' out with
      | error e =>
        rw [hblock] at hrest
        cases hrest
      | ok next =>
        rw [hblock] at hrest
        dsimp only at hrest
        split at hrest
        · cases hrest
        · rename_i hmore
          exact ⟨hmore, next.1, next.2, rfl, hrest⟩

/-- The last block, where it is stored, is what is returned. -/
theorem inflateLoop_of_final {data : List UInt8} {b : BlockRead}
    (hmem : b ∈ inflateBlocks bytes maxOutput fuel position out) (hlast : b.final = 1)
    (hstored : b.kind = 0) (hdata : storedData bytes b.position = .ok data) :
    inflateLoop bytes maxOutput fuel position out = .ok (b.out ++ data) := by
  induction fuel generalizing position out with
  | zero => cases hmem
  | succ fuel ih =>
    obtain ⟨final, position', kind, position'', hfinal, hkind, hblock⟩ := mem_inflateBlocks hmem
    rw [inflateLoop, hfinal, bind_ok]
    dsimp only
    rw [hkind, bind_ok]
    dsimp only
    rcases hblock with rfl | ⟨hmore, next, out', hblock, hrest⟩
    · obtain ⟨next, hblock⟩ := storedBlock_of_data hdata out
      dsimp only at hstored hlast
      rw [anyBlock, if_pos hstored, hblock, bind_ok]
      exact if_pos hlast
    · rw [hblock, bind_ok]
      dsimp only
      rw [if_neg hmore]
      exact ih hrest

theorem inflateLoop_le {after : List UInt8}
    (hfits : ∀ b ∈ inflateBlocks bytes maxOutput fuel position out, b.Fits bytes maxOutput)
    (h : inflateLoop bytes maxOutput fuel position out = .ok after) :
    after.length ≤ maxOutput := by
  induction fuel generalizing position out with
  | zero => cases h
  | succ fuel ih =>
    obtain ⟨⟨final, position'⟩, hfinal, h⟩ := bind_eq_ok.mp h
    obtain ⟨⟨kind, position''⟩, hkind, h⟩ := bind_eq_ok.mp h
    obtain ⟨⟨next, out'⟩, hblock, h⟩ := bind_eq_ok.mp h
    dsimp only at h
    rw [inflateBlocks_succ hfinal hkind] at hfits
    split at h
    · rename_i hlast
      rw [pure_eq, Except.ok.injEq] at h
      subst h
      have hfirst := hfits _ List.mem_cons_self
      exact hfirst.returns hblock hlast
    · rename_i hmore
      rw [hblock] at hfits
      dsimp only at hfits
      rw [if_neg hmore] at hfits
      exact ih (fun b hmem => hfits b (List.mem_cons_of_mem _ hmem)) h

end Loop

/-- **The limit is kept** exactly when every stored block fits into it. -/
theorem limit_kept_iff (bytes : List UInt8) (maxOutput : Nat) :
    LimitKept bytes maxOutput ↔ ∀ b ∈ blocksRead bytes maxOutput, b.Fits bytes maxOutput := by
  constructor
  · intro hkept b hmem hkind data hdata
    rw [← List.length_append]
    split
    · rename_i hlast
      exact hkept.returned _ (inflateLoop_of_final hmem hlast hkind hdata)
    · apply hkept.held
      refine List.mem_flatMap.mpr ⟨b, hmem, ?_⟩
      rw [BlockRead.held, if_pos hkind, hdata]
      exact List.mem_singleton_self _
  · intro hfits
    refine ⟨fun out h => inflateLoop_le hfits h, ?_⟩
    intro buffer hmem
    obtain ⟨b, hblock, hheld⟩ := List.mem_flatMap.mp hmem
    exact (hfits b hblock).holds hheld

/-- One stored byte, and no room for it. -/
theorem stored_byte_past_limit :
    ¬ ∀ (bytes : List UInt8) (maxOutput : Nat), LimitKept bytes maxOutput := by
  intro hall
  have hreturned := (hall [1, 1, 0, 254, 255, 65] 0).returned [65] (by decide)
  exact absurd hreturned (by decide)

end AiDaemon.Inflate
