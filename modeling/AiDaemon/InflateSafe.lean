import AiDaemon.InflateCodes

/-!
# The inflater does not go wrong

Whatever bytes it is given, the inflater leaves no table and no number's range,
and it ends: every turn of its loops reads a bit or fills a length, and the
codes it reads with may be over-subscribed, incomplete or empty.
-/

namespace AiDaemon.Inflate

open Checked BitList

variable {bytes : List UInt8} {position : Nat}

/-- Where a step that starts here may leave the position. -/
def Ahead (bytes : List UInt8) (position next : Nat) : Prop :=
  position ≤ next ∧ next ≤ 8 * bytes.length

theorem le16_lt (low high : UInt8) : low.toNat + 256 * high.toNat < 2 ^ 16 := by
  have hlow := low.toNat_lt
  have hhigh := high.toNat_lt
  omega

/-! ### Blocks -/

theorem length_lengthBase : lengthBase.length = 29 := rfl

theorem length_lengthExtra : lengthExtra.length = 29 := rfl

theorem length_distanceBase : distanceBase.length = 30 := rfl

theorem length_distanceExtra : distanceExtra.length = 30 := rfl

theorem length_extra_lt : ∀ extra ∈ lengthExtra, extra < 32 := by decide

theorem length_base_lt : ∀ base ∈ lengthBase, base < 2 ^ 16 := by decide

theorem distance_extra_lt : ∀ extra ∈ distanceExtra, extra < 32 := by decide

theorem distance_base_pos : ∀ base ∈ distanceBase, 0 < base ∧ base < 2 ^ 16 := by decide

theorem fits_sum {base n extra : Nat} (hbase : base < 2 ^ 16) (hextra : extra < 32)
    (hn : n < 2 ^ extra) :
    base + n < 2 ^ 64 := by
  have hpow : 2 ^ extra ≤ 2 ^ 31 := Nat.pow_le_pow_right (by decide) (by omega)
  omega

theorem safe_copyLoop {start remaining offset : Nat} {out : List UInt8}
    (h : start + offset < out.length) :
    Safe (copyLoop start remaining offset out) fun _ => True := by
  induction remaining generalizing offset out with
  | zero => exact safe_ok trivial
  | succ remaining ih =>
    rw [copyLoop]
    refine (safe_get h).bind fun byte _ => ih ?_
    rw [List.length_append, List.length_singleton]
    omega

theorem safe_backReference (hmem : InMemory bytes) {lengths : List Nat} {distances : Huffman}
    (hcode : IsCode lengths distances) {symbol : Nat} (hlow : 257 ≤ symbol) (hhigh : symbol ≤ 285)
    (hposition : position ≤ 8 * bytes.length) (out : List UInt8) :
    Safe (backReference bytes distances symbol position out) fun r => Ahead bytes position r.1 := by
  rw [backReference, minus_eq hlow, bind_ok]
  refine (safe_get (lt_of_lt_of_eq (by omega) length_lengthBase.symm)).bind fun base hbase => ?_
  refine (safe_get (lt_of_lt_of_eq (by omega) length_lengthExtra.symm)).bind fun extra hextra => ?_
  have hbase := length_base_lt _ (List.mem_of_getElem? hbase)
  have hextra := length_extra_lt _ (List.mem_of_getElem? hextra)
  refine (safe_bits hmem hextra hposition).bind ?_
  rintro ⟨n, _⟩ ⟨hn, rfl, hp⟩
  dsimp only at hn hp ⊢
  rw [fits_eq (fits_sum hbase hextra hn), bind_ok]
  refine (safe_decode hmem hcode).bind ?_
  rintro ⟨distanceSymbol, afterSymbol⟩ ⟨hlt, hp⟩
  dsimp only at hlt hp ⊢
  split_ifs with hbad
  · exact safe_fail _
  rw [length_distanceBase] at hbad
  refine (safe_get (lt_of_lt_of_eq (by omega) length_distanceBase.symm)).bind fun base hbase => ?_
  refine
    (safe_get (lt_of_lt_of_eq (by omega) length_distanceExtra.symm)).bind fun extra hextra => ?_
  obtain ⟨hpos, hbase⟩ := distance_base_pos _ (List.mem_of_getElem? hbase)
  have hextra := distance_extra_lt _ (List.mem_of_getElem? hextra)
  refine (safe_bits hmem hextra hp).bind ?_
  rintro ⟨n, _⟩ ⟨hn, rfl, hp⟩
  dsimp only at hn hp ⊢
  rw [fits_eq (fits_sum hbase hextra hn), bind_ok]
  split_ifs with hbefore
  · exact safe_fail _
  rw [minus_eq (by omega), bind_ok]
  refine (safe_copyLoop (by omega)).bind fun out' _ => safe_ok ?_
  constructor
  · dsimp only
    omega
  · exact hp

/-- The loop of a block ends before the bits do. -/
theorem safe_blockLoop (hmem : InMemory bytes) {lengths lengths' : List Nat}
    {literals distances : Huffman} (hliterals : IsCode lengths literals)
    (hdistances : IsCode lengths' distances) (maxOutput : Nat) {fuel : Nat} {out : List UInt8}
    (hposition : position ≤ 8 * bytes.length) (hfuel : 8 * bytes.length < position + fuel) :
    Safe (blockLoop bytes literals distances maxOutput fuel position out) fun r =>
      Ahead bytes position r.1 := by
  induction fuel generalizing position out with
  | zero => omega
  | succ fuel ih =>
    rw [blockLoop]
    split_ifs
    · exact safe_fail _
    refine (safe_decode hmem hliterals).bind ?_
    rintro ⟨symbol, next⟩ ⟨hlt, hnext⟩
    dsimp only at hlt hnext ⊢
    split_ifs with hliteral hend hreference
    · -- a literal
      exact (ih hnext (by omega)).imp fun r hr => ⟨by have := hr.1; omega, hr.2⟩
    · -- the end of the block
      exact safe_ok ⟨Nat.le_of_lt hlt, hnext⟩
    · -- a copy
      refine (safe_backReference hmem hdistances (by omega) hreference hnext out).bind ?_
      rintro ⟨after, out'⟩ ⟨hle, hafter⟩
      dsimp only at hle hafter ⊢
      exact (ih hafter (by omega)).imp fun r hr => ⟨by have := hr.1; omega, hr.2⟩
    · exact safe_fail _

theorem safe_block (hmem : InMemory bytes) {lengths lengths' : List Nat}
    {literals distances : Huffman} (hliterals : IsCode lengths literals)
    (hdistances : IsCode lengths' distances) (maxOutput : Nat) (out : List UInt8)
    (hposition : position ≤ 8 * bytes.length) :
    Safe (block bytes literals distances maxOutput position out) fun r =>
    Ahead bytes position r.1 :=
  safe_blockLoop hmem hliterals hdistances maxOutput hposition (by omega)

theorem safe_le16 {index : Nat} (h : index + 1 < bytes.length) :
    Safe (le16 bytes index) fun n => n < 2 ^ 16 := by
  rw [le16]
  refine (safe_get (by omega)).bind fun low _ => ?_
  exact (safe_get h).bind fun high _ => safe_ok (le16_lt low high)

theorem safe_storedBlock (hmem : InMemory bytes) (hposition : position ≤ 8 * bytes.length)
    (out : List UInt8) :
    Safe (storedBlock bytes position out) fun r => Ahead bytes position r.1 := by
  unfold InMemory at hmem
  have halign : align position = .ok ((position + 7) / 8 * 8) := by
    rw [align, fits_eq (by omega), bind_ok, pure_eq]
  rw [storedBlock, halign, bind_ok, Nat.shiftRight_eq_div_pow]
  dsimp only
  rw [fits_eq (by omega), bind_ok]
  split_ifs with hshort
  · exact safe_fail _
  refine (safe_le16 (by omega)).bind fun len hlen => ?_
  refine (safe_le16 (by omega)).bind fun nlen _ => ?_
  split_ifs with hcheck hover hlong
  · exact safe_fail _
  · exact safe_fail _
  · exact safe_fail _
  refine (safe_slice (by omega) (by omega)).bind fun data _ => ?_
  rw [Nat.shiftLeft_eq, fits_eq (by omega), bind_ok]
  refine safe_ok ?_
  constructor
  · dsimp only
    omega
  · dsimp only
    omega

theorem length_fixedLengths : fixedLengths.length = 288 := by
  rw [fixedLengths, List.length_map, List.length_range]

theorem fixedLengths_lt : ∀ l ∈ fixedLengths, l < 16 := by
  intro l hl
  obtain ⟨symbol, -, rfl⟩ := List.mem_map.mp hl
  split_ifs <;> decide

theorem replicate_lt {n l : Nat} (hl : l < 16) : ∀ m ∈ List.replicate n l, m < 16 := by
  intro m hm
  rwa [List.eq_of_mem_replicate hm]

theorem safe_fixedBlock (hmem : InMemory bytes) (maxOutput : Nat) (out : List UInt8)
    (hposition : position ≤ 8 * bytes.length) :
    Safe (fixedBlock bytes maxOutput position out) fun r => Ahead bytes position r.1 := by
  obtain ⟨literals, hnew, hliterals⟩ :=
    new_spec fixedLengths_lt (lt_of_eq_of_lt length_fixedLengths (by decide))
  have hfive : ∀ l ∈ List.replicate 30 5, l < 16 := replicate_lt (by decide)
  obtain ⟨distances, hnew', hdistances⟩ :=
    new_spec hfive (lt_of_eq_of_lt List.length_replicate (by decide))
  rw [fixedBlock, hnew, bind_ok, hnew', bind_ok]
  exact safe_block hmem hliterals hdistances maxOutput out hposition

/-! ### Code lengths -/

/-- A table of code lengths that is being filled. -/
def Filling (size : Nat) (lengths : List Nat) : Prop :=
  lengths.length = size ∧ ∀ l ∈ lengths, l < 16

theorem Filling.put {size index l : Nat} {lengths : List Nat} (h : Filling size lengths)
    (hindex : index < lengths.length) (hl : l < 16) :
    Safe (put lengths index l : Result (List Nat)) fun lengths' => Filling size lengths' := by
  refine (safe_put hindex l).imp ?_
  rintro _ rfl
  refine ⟨by rw [List.length_set, h.1], fun m hm => ?_⟩
  rcases List.mem_or_eq_of_mem_set hm with hm | rfl
  · exact h.2 m hm
  · exact hl

theorem filling_zero (size : Nat) : Filling size (List.replicate size 0) := by
  exact ⟨List.length_replicate, replicate_lt (by decide)⟩

theorem safe_codeLengths (hmem : InMemory bytes) {indices : List Nat}
    (hindices : ∀ i ∈ indices, i < 19)
    {lengths : List Nat} (h : Filling 19 lengths) (hposition : position ≤ 8 * bytes.length) :
    Safe (codeLengths bytes indices position lengths) fun r =>
      Filling 19 r.1 ∧ Ahead bytes position r.2 := by
  induction indices generalizing position lengths with
  | nil => exact safe_ok ⟨h, Nat.le_refl _, hposition⟩
  | cons index indices ih =>
    rw [List.forall_mem_cons] at hindices
    rw [codeLengths]
    refine (safe_bits hmem (by decide) hposition).bind ?_
    rintro ⟨n, _⟩ ⟨hn, rfl, hp⟩
    dsimp only at hn hp ⊢
    refine (h.put (by rw [h.1]; exact hindices.1) (by omega)).bind fun lengths' h' => ?_
    refine (ih hindices.2 h' hp).imp ?_
    rintro r ⟨hr, hle, hend⟩
    exact ⟨hr, by omega, hend⟩

theorem safe_repeatLength {previous remaining index size : Nat} {lengths : List Nat}
    (h : Filling size lengths) (hsize : size < 2 ^ 16) (hprevious : previous < 16) :
    Safe (repeatLength previous remaining index lengths) fun r =>
      r.1 = index + remaining ∧ Filling size r.2 := by
  induction remaining generalizing index lengths with
  | zero => exact safe_ok ⟨rfl, h⟩
  | succ remaining ih =>
    rw [repeatLength]
    split_ifs with hfull
    · exact safe_fail _
    have hlen := h.1
    refine (h.put (Nat.not_le.mp hfull) hprevious).bind fun lengths' h' => ?_
    rw [fits_eq (by omega), bind_ok]
    refine (ih h').imp ?_
    rintro r ⟨hr, hfilling⟩
    exact ⟨by omega, hfilling⟩

/-- What a code length symbol does: it fills at least one length. -/
theorem safe_lengthStep (hmem : InMemory bytes) {symbol index size : Nat} {lengths : List Nat}
    (h : Filling size lengths) (hsize : size < 2 ^ 16) (hindex : index < lengths.length)
    (hposition : position ≤ 8 * bytes.length) :
    Safe (lengthStep bytes symbol position index lengths) fun r =>
      Ahead bytes position r.1 ∧ index < r.2.1 ∧ Filling size r.2.2 := by
  have hlen := h.1
  rw [lengthStep]
  split_ifs with hlength hrepeat hnone hzeros hmore
  · -- a length
    refine (h.put hindex (by omega)).bind fun lengths' h' => ?_
    rw [fits_eq (by omega), bind_ok]
    exact safe_ok ⟨⟨Nat.le_refl _, hposition⟩, Nat.lt_succ_self _, h'⟩
  · exact safe_fail _
  · -- the previous length again
    rw [minus_eq (by omega), bind_ok]
    refine (safe_get (by omega)).bind fun previous hprevious => ?_
    refine (safe_bits hmem (by decide) hposition).bind ?_
    rintro ⟨n, _⟩ ⟨hn, rfl, hp⟩
    dsimp only at hn hp ⊢
    refine (safe_repeatLength h hsize (h.2 _ (List.mem_of_getElem? hprevious))).bind ?_
    rintro ⟨index', lengths'⟩ ⟨hindex', h'⟩
    dsimp only at hindex' h' ⊢
    exact safe_ok ⟨⟨by omega, hp⟩, by dsimp only; omega, h'⟩
  · -- zeros
    refine (safe_bits hmem (by decide) hposition).bind ?_
    rintro ⟨n, _⟩ ⟨hn, rfl, hp⟩
    dsimp only at hn hp ⊢
    rw [fits_eq (by omega), bind_ok]
    exact safe_ok ⟨⟨by omega, hp⟩, by dsimp only; omega, h⟩
  · -- more zeros
    refine (safe_bits hmem (by decide) hposition).bind ?_
    rintro ⟨n, _⟩ ⟨hn, rfl, hp⟩
    dsimp only at hn hp ⊢
    rw [fits_eq (by omega), bind_ok]
    exact safe_ok ⟨⟨by omega, hp⟩, by dsimp only; omega, h⟩
  · exact safe_fail _

theorem safe_lengthsLoop (hmem : InMemory bytes) {codes : List Nat} {huffman : Huffman}
    (hcode : IsCode codes huffman) {fuel index size : Nat} {lengths : List Nat}
    (h : Filling size lengths) (hsize : size < 2 ^ 16) (hpos : 0 < fuel)
    (hfuel : size < index + fuel) (hposition : position ≤ 8 * bytes.length) :
    Safe (lengthsLoop bytes huffman fuel position index lengths) fun r =>
      Ahead bytes position r.1 ∧ Filling size r.2.2 := by
  induction fuel generalizing position index lengths with
  | zero => exact absurd hpos (Nat.lt_irrefl 0)
  | succ fuel ih =>
    have hlen := h.1
    rw [lengthsLoop]
    split_ifs with hindex
    · refine (safe_decode hmem hcode).bind ?_
      rintro ⟨symbol, next⟩ ⟨hlt, hnext⟩
      dsimp only at hlt hnext ⊢
      refine (safe_lengthStep hmem h hsize hindex hnext).bind ?_
      rintro ⟨after, index', lengths'⟩ ⟨⟨hle, hafter⟩, hgrow, h'⟩
      dsimp only at hle hafter hgrow h' ⊢
      refine (ih h' (by omega) (by omega) hafter).imp ?_
      rintro r ⟨⟨hle', hend⟩, hr⟩
      exact ⟨⟨by omega, hend⟩, hr⟩
    · exact safe_ok ⟨⟨Nat.le_refl _, hposition⟩, h⟩

theorem order_lt : ∀ i ∈ order, i < 19 := by decide

theorem safe_dynamicBlock (hmem : InMemory bytes) (maxOutput : Nat) (out : List UInt8)
    (hposition : position ≤ 8 * bytes.length) :
    Safe (dynamicBlock bytes maxOutput position out) fun r => Ahead bytes position r.1 := by
  rw [dynamicBlock]
  refine (safe_bits hmem (by decide) hposition).bind ?_
  rintro ⟨hlit, _⟩ ⟨hhlit, rfl, hp⟩
  dsimp only at hhlit hp ⊢
  refine (safe_bits hmem (by decide) hp).bind ?_
  rintro ⟨hdist, _⟩ ⟨hhdist, rfl, hp⟩
  dsimp only at hhdist hp ⊢
  refine (safe_bits hmem (by decide) hp).bind ?_
  rintro ⟨hclen, _⟩ ⟨-, rfl, hp⟩
  dsimp only at hp ⊢
  have horder : ∀ i ∈ order.take (hclen + 4), i < 19 :=
    fun i hi => order_lt i (List.mem_of_mem_take hi)
  refine (safe_codeLengths hmem horder (filling_zero 19) hp).bind ?_
  rintro ⟨codes, next⟩ ⟨hcodes, hle, hnext⟩
  dsimp only at hcodes hle hnext ⊢
  obtain ⟨huffman, hnew, hcode⟩ := new_spec hcodes.2 (lt_of_eq_of_lt hcodes.1 (by decide))
  rw [hnew, bind_ok]
  refine (safe_lengthsLoop hmem hcode (filling_zero _) (by omega) (by omega) (by omega)
    hnext).bind ?_
  rintro ⟨after, index, lengths⟩ ⟨⟨hle', hafter⟩, hlengths⟩
  dsimp only at hle' hafter hlengths ⊢
  split_ifs with hover
  · exact safe_fail _
  have hsize := hlengths.1
  rw [slice_eq (Nat.zero_le _) (by omega), bind_ok, List.drop_zero, Nat.sub_zero]
  obtain ⟨literals, hnew, hliterals⟩ := new_spec
    (fun l hl => hlengths.2 l (List.mem_of_mem_take hl) : ∀ l ∈ lengths.take (hlit + 257), l < 16)
    (lt_of_eq_of_lt List.length_take (by omega))
  rw [hnew, bind_ok, slice_eq (by omega) (Nat.le_refl _), bind_ok]
  obtain ⟨distances, hnew, hdistances⟩ := new_spec
    (fun l hl => hlengths.2 l (List.mem_of_mem_drop (List.mem_of_mem_take hl)) :
      ∀ l ∈ (lengths.drop (hlit + 257)).take (lengths.length - (hlit + 257)), l < 16)
    (lt_of_le_of_lt (List.length_take_le _ _) (by omega))
  rw [hnew, bind_ok]
  refine (safe_block hmem hliterals hdistances maxOutput out hafter).imp ?_
  rintro r ⟨hle'', hend⟩
  exact ⟨by omega, hend⟩

/-! ### Streams -/

theorem safe_anyBlock (hmem : InMemory bytes) (maxOutput kind : Nat) (out : List UInt8)
    (hposition : position ≤ 8 * bytes.length) :
    Safe (anyBlock bytes maxOutput kind position out) fun r => Ahead bytes position r.1 := by
  rw [anyBlock]
  split_ifs
  · exact safe_storedBlock hmem hposition out
  · exact safe_fixedBlock hmem maxOutput out hposition
  · exact safe_dynamicBlock hmem maxOutput out hposition
  · exact safe_fail _

theorem safe_inflateLoop (hmem : InMemory bytes) (maxOutput : Nat) {fuel : Nat} {out : List UInt8}
    (hposition : position ≤ 8 * bytes.length) (hfuel : 8 * bytes.length < position + fuel) :
    Safe (inflateLoop bytes maxOutput fuel position out) fun _ => True := by
  induction fuel generalizing position out with
  | zero => omega
  | succ fuel ih =>
    rw [inflateLoop]
    refine (safe_bit hmem position).bind ?_
    rintro ⟨final, _⟩ ⟨-, rfl, hlt⟩
    dsimp only
    refine (safe_bits hmem (by decide) (show position + 1 ≤ 8 * bytes.length by omega)).bind ?_
    rintro ⟨kind, _⟩ ⟨-, rfl, hp⟩
    dsimp only at hp ⊢
    refine (safe_anyBlock hmem maxOutput kind out hp).bind ?_
    rintro ⟨next, out'⟩ ⟨hle, hnext⟩
    dsimp only at hle hnext ⊢
    split_ifs
    · exact safe_ok trivial
    · exact ih hnext (by omega)

theorem safe_inflate (hmem : InMemory bytes) (maxOutput : Nat) :
    Safe (inflate bytes maxOutput) fun _ => True :=
  safe_inflateLoop hmem maxOutput (Nat.zero_le _) (by omega)

theorem safe_zlib (hmem : InMemory bytes) (maxOutput : Nat) :
    Safe (zlib bytes maxOutput) fun _ => True := by
  rw [zlib]
  split_ifs with hshort
  · exact safe_fail _
  refine (safe_get (by omega)).bind fun cmf _ => ?_
  refine (safe_get (by omega)).bind fun flags _ => ?_
  have hcmf := cmf.toNat_lt
  have hflags := flags.toNat_lt
  by_cases hmethod : cmf.toNat &&& 0x0f ≠ 8
  · rw [if_pos hmethod]
    exact safe_fail _
  rw [if_neg hmethod, fits_eq (by omega), bind_ok]
  split_ifs
  · exact safe_fail _
  · exact safe_fail _
  · refine (safe_slice (Nat.not_lt.mp hshort) (Nat.le_refl _)).bind fun rest hrest => ?_
    refine safe_inflate ?_ maxOutput
    have hlen : rest.length ≤ bytes.length := by
      rw [hrest, List.length_take, List.length_drop]
      omega
    exact lt_of_le_of_lt hlen hmem

/-- **The inflater is safe**: with any bytes and any limit it ends, in a result or in
    an error, and so does every lookup, whatever lengths its code was made from. -/
theorem inflate_safe (bytes : List UInt8) (hmem : InMemory bytes) (maxOutput : Nat) :
    Safe (zlib bytes maxOutput) (fun _ => True) ∧
      Safe (inflate bytes maxOutput) (fun _ => True) ∧
      ∀ lengths : List Nat, lengths.length < 2 ^ 16 → (∀ l ∈ lengths, l < 16) →
        ∃ huffman, Huffman.new lengths = .ok huffman ∧
          ∀ position, Safe (huffman.decode bytes position) fun r =>
            position < r.2 ∧ r.2 ≤ 8 * bytes.length := by
  refine ⟨safe_zlib hmem maxOutput, safe_inflate hmem maxOutput, ?_⟩
  intro lengths hlen hlengths
  obtain ⟨huffman, hnew, hcode⟩ := new_spec hlengths hlen
  exact ⟨huffman, hnew, fun _ => safe_decode hmem hcode⟩

/-- With a block of a reserved kind it ends in an error. -/
theorem inflate_safe_reserved :
    InMemory [7] ∧ Safe (inflate [7] 0) (fun _ => True) ∧
      inflate [7] 0 = fail "reserved deflate block type".toList := by
  have hmem : InMemory [7] := by decide
  exact ⟨hmem, (inflate_safe [7] hmem 0).2.1, by decide⟩

end AiDaemon.Inflate
