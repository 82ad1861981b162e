import AiDaemon.PngScan

/-!
# The picture reader and large pictures

The picture reader does not go wrong, and what it returns has the size that it
says, for every file but one kind: a picture of 2^64 bytes and more passes the
limit that it is too large for, because its size is computed in 64 bits before
it is compared.
-/

namespace AiDaemon.Png

open Checked PngFormat
open Inflate (Result InMemory)

variable {bytes : List UInt8}

/-- A file that asks for a picture with more bytes than 64 bits can count. -/
def Oversized (bytes : List UInt8) : Prop :=
  ∃ chunks width height alpha, IsFile bytes chunks ∧ LastHeader chunks width height alpha ∧
    2 ^ 64 ≤ width * height * channels alpha

/-- What is returned has the size that it says, and the limit is kept. -/
def Honest (maxOutput : Nat) (d : Decoded) : Prop :=
  ∃ width height alpha, d.w = some width ∧ d.h = some height ∧
    d.fmt = some (if alpha then rgba8 else rgb8) ∧
    d.data.length = width * height * channels alpha ∧ d.data.length ≤ maxOutput

/-! ### Rows -/

theorem safe_restore (filter x a b c : UInt8) : Safe (restore filter x a b c) fun _ => True := by
  rw [restore]
  split_ifs
  · exact safe_ok trivial
  · exact safe_ok trivial
  · exact safe_ok trivial
  · exact safe_ok trivial
  · exact safe_ok trivial
  · exact safe_fail _

theorem safe_above {previous : Option (List UInt8)} {i : Nat}
    (hprevious : ∀ row, previous = some row → i < row.length) :
    Safe (above previous i) fun _ => True := by
  cases previous with
  | none => exact safe_ok trivial
  | some row => exact (safe_get (hprevious row rfl)).imp fun _ _ => trivial

theorem safe_beside {channels i : Nat} {row : Nat → Result UInt8}
    (hrow : Safe (row (i - channels)) fun _ => True) :
    Safe (beside channels i row) fun _ => True := by
  rw [beside]
  split_ifs
  · exact hrow
  · exact safe_ok trivial

theorem safe_rowLoop {filter : UInt8} {channels stride : Nat} {src : List UInt8}
    (hsrc : src.length = stride) {previous : Option (List UInt8)}
    (hprevious : ∀ row, previous = some row → row.length = stride) {indices : List Nat}
    (hindices : ∀ i ∈ indices, i < stride) {current : List UInt8}
    (hcurrent : current.length = stride) :
    Safe (rowLoop filter channels src previous indices current) fun row => row.length = stride := by
  induction indices generalizing current with
  | nil => exact safe_ok hcurrent
  | cons i indices ih =>
    rw [List.forall_mem_cons] at hindices
    have habove : ∀ j ≤ i, Safe (above previous j) fun _ => True := by
      intro j hj
      refine safe_above fun row hrow => ?_
      rw [hprevious row hrow]
      omega
    have hcurrent' : Safe (get current (i - channels) : Result UInt8) fun _ => True :=
      (safe_get (by omega)).imp fun _ _ => trivial
    rw [rowLoop]
    refine (safe_beside hcurrent').bind fun a _ => ?_
    refine (habove i (Nat.le_refl i)).bind fun b _ => ?_
    refine (safe_beside (habove _ (Nat.sub_le _ _))).bind fun c _ => ?_
    refine (safe_get (by omega)).bind fun x _ => ?_
    refine (safe_restore filter x a b c).bind fun byte _ => ?_
    refine (safe_put (by omega) byte).bind fun current' hput => ih hindices.2 ?_
    rw [hput, List.length_set, hcurrent]

theorem row_fits {row height n : Nat} (hrow : row < height) : row * n + n ≤ n * height := by
  rw [← Nat.succ_mul, Nat.mul_comm n]
  exact Nat.mul_le_mul_right n hrow

theorem safe_previousRow {stride row : Nat} {before : List UInt8}
    (hbefore : before.length = row * stride) :
    Safe (previousRow stride row before) fun previous =>
      ∀ row', previous = some row' → row'.length = stride := by
  rw [previousRow]
  split_ifs with hzero
  · exact safe_ok fun _ h => nomatch h
  · obtain ⟨n, rfl⟩ := Nat.exists_eq_succ_of_ne_zero hzero
    have hsplit : (n + 1) * stride = n * stride + stride := Nat.succ_mul n stride
    rw [Nat.succ_eq_add_one] at hbefore ⊢
    rw [Nat.add_sub_cancel]
    refine (safe_slice (by omega) (Nat.le_refl _)).bind fun previous hslice => safe_ok ?_
    rintro _ ⟨⟩
    rw [hslice, List.length_take, List.length_drop]
    omega

theorem safe_unfilterRow {raw : List UInt8} {stride height channels row : Nat}
    (hrow : row < height) (hraw : (stride + 1) * height ≤ raw.length)
    (hsmall : (stride + 1) * height < 2 ^ 64) {out : List UInt8}
    (hout : out.length = stride * height) :
    Safe (unfilterRow raw stride channels row out) fun out' => out'.length = stride * height := by
  have hplace := row_fits (n := stride + 1) hrow
  have hstart := row_fits (n := stride) hrow
  have hle : stride * height ≤ (stride + 1) * height := Nat.mul_le_mul_right _ (Nat.le_succ _)
  rw [unfilterRow, fits_eq (by omega), bind_ok]
  refine (safe_get (by omega)).bind fun filter _ => ?_
  refine (safe_slice (by omega) (by omega)).bind fun src hsrc => ?_
  rw [fits_eq (by omega), bind_ok, slice_eq (Nat.zero_le _) (by omega), bind_ok, List.drop_zero,
    Nat.sub_zero, slice_eq (by omega) (Nat.le_refl _), bind_ok]
  have hbefore : (out.take (row * stride)).length = row * stride :=
    List.length_take_of_le (by omega)
  have htail : ((out.drop (row * stride)).take (out.length - row * stride)).length =
      out.length - row * stride := by
    rw [List.length_take, List.length_drop, Nat.min_self]
  refine (safe_previousRow hbefore).bind fun previous hprevious => ?_
  rw [slice_eq (Nat.zero_le _) (by omega), bind_ok, List.drop_zero, Nat.sub_zero]
  have hsrc' : src.length = stride := by
    rw [hsrc, List.length_take, List.length_drop]
    omega
  have hcurrent :
    (((out.drop (row * stride)).take (out.length - row * stride)).take stride).length =
      stride := List.length_take_of_le (by omega)
  refine (safe_rowLoop hsrc' hprevious (fun i hi => List.mem_range.mp hi) hcurrent).bind
    fun current hcurrent' => safe_ok ?_
  rw [List.length_append, List.length_append, hbefore, hcurrent', List.length_drop, htail]
  omega

theorem safe_rowsLoop {raw : List UInt8} {stride height channels : Nat}
    (hraw : (stride + 1) * height ≤ raw.length) (hsmall : (stride + 1) * height < 2 ^ 64)
    {rows : List Nat} (hrows : ∀ row ∈ rows, row < height) {out : List UInt8}
    (hout : out.length = stride * height) :
    Safe (rowsLoop raw stride channels rows out) fun out' => out'.length = stride * height := by
  induction rows generalizing out with
  | nil => exact safe_ok hout
  | cons row rows ih =>
    rw [List.forall_mem_cons] at hrows
    rw [rowsLoop]
    exact (safe_unfilterRow hrows.1 hraw hsmall hout).bind fun out' hout' => ih hrows.2 hout'

theorem safe_unfilter {raw : List UInt8} {header : Header} {channels : Nat}
    (hstride : header.width * channels + 1 < 2 ^ 64)
    (hsmall : (header.width * channels + 1) * header.height < 2 ^ 64) :
    Safe (unfilter raw header channels) fun data =>
      data.length = header.width * channels * header.height := by
  have hle : header.width * channels * header.height ≤
      (header.width * channels + 1) * header.height := Nat.mul_le_mul_right _ (Nat.le_succ _)
  rw [unfilter, fits_eq (by omega), bind_ok, fits_eq hstride, bind_ok, fits_eq hsmall, bind_ok]
  split_ifs with hshort
  · exact safe_fail _
  · rw [fits_eq (by omega), bind_ok]
    exact safe_rowsLoop (Nat.not_lt.mp hshort) hsmall (fun row hrow => List.mem_range.mp hrow)
      List.length_replicate

/-! ### Pictures -/

/-- The size of a picture that is not too large is computed as it is. -/
theorem safe_render {header : Header} {data raw : List UInt8} (hdata : HeaderOf raw header)
    (hmem : InMemory data) {maxOutput : Nat} (hmax : maxOutput < 2 ^ 32)
    (hsize : header.width * header.height * header.channels < 2 ^ 64) :
    Safe (render header data maxOutput) (Honest maxOutput) := by
  obtain ⟨alpha, hcolour, -, hwidth, hpos, hheight, -⟩ := hdata
  have hchannels := channels_eq hcolour
  have hfour : header.channels ≤ 4 := by
    rw [Header.channels]
    split_ifs <;> decide
  have hthree : 0 < header.channels := by
    rw [Header.channels]
    split_ifs <;> decide
  have hpixels : header.width * header.height ≤ header.width * header.height * header.channels :=
    Nat.le_mul_of_pos_right _ hthree
  rw [render]
  rw [fits_eq (by omega), bind_ok, fits_eq hsize, bind_ok]
  by_cases hlimit : header.width * header.height * header.channels > maxOutput
  · rw [if_pos hlimit]
    exact safe_fail _
  rw [if_neg hlimit, fits_eq (by omega), bind_ok, fits_eq (by omega), bind_ok]
  refine (Inflate.safe_zlib hmem _).bind fun raw _ => ?_
  have hstride : header.width * header.channels ≤ header.width * 4 := Nat.mul_le_mul_left _ hfour
  have hlines : (header.width * header.channels + 1) * header.height =
      header.width * header.height * header.channels + header.height := by
    rw [Nat.succ_mul, Nat.mul_right_comm]
  refine (safe_unfilter (by omega) (by omega)).bind fun rows hrows => safe_ok ?_
  rw [Nat.mul_right_comm] at hrows
  refine ⟨header.width, header.height, alpha, rfl, rfl, ?_, ?_, ?_⟩
  · dsimp only
    rw [hchannels]
    cases alpha <;> rfl
  · dsimp only
    rw [hrows, hchannels]
  · dsimp only
    omega

theorem render_oversized {header : Header} {data : List UInt8} {maxOutput : Nat}
    (hpixels : header.width * header.height < 2 ^ 64)
    (hsize : 2 ^ 64 ≤ header.width * header.height * header.channels) :
    render header data maxOutput = .error .panic := by
  rw [render]
  rw [fits_eq hpixels, bind_ok, fits, if_neg (Nat.not_lt.mpr hsize), bind_error]

theorem decode_of_magic {maxOutput : Nat} (hlen : 8 ≤ bytes.length)
    (hmagic : bytes.take 8 = magic) :
    decode bytes maxOutput = (scan bytes).bind fun known =>
      match known.1 with
      | none => fail "no IHDR".toList
      | some header => render header known.2 maxOutput := by
  rw [decode, if_neg]
  · rfl
  · rintro (hshort | hne)
    · omega
    · exact hne hmagic

theorem decode_of_no_magic {maxOutput : Nat} (h : ¬ (8 ≤ bytes.length ∧ bytes.take 8 = magic)) :
    decode bytes maxOutput = fail "not a PNG".toList := by
  rw [decode, if_pos]
  by_cases hlen : bytes.length < 8
  · exact .inl hlen
  · exact .inr fun hmagic => h ⟨Nat.not_lt.mp hlen, hmagic⟩

theorem magic_of_isFile {chunks : List Chunk} (h : IsFile bytes chunks) :
    8 ≤ bytes.length ∧ bytes.take 8 = magic := by
  refine ⟨length_of_isFile h, ?_⟩
  obtain ⟨-, tail, -, rfl⟩ := h
  exact take_signature.1

/-- The header that a file ends with is the one the reader has. -/
theorem scan_of_lastHeader (hmem : InMemory bytes) {chunks : List Chunk}
    (hfile : IsFile bytes chunks)
    {width height : Nat} {alpha : Bool} (hlast : LastHeader chunks width height alpha) :
    scan bytes = .ok (some ⟨width, height, if alpha then 6 else 2⟩,
      (chunks.filter fun c => c.kind = imageData).flatMap Chunk.data) := by
  obtain ⟨hheaders, c, hc, hheader⟩ := hlast
  obtain ⟨header, hfold, -, hsome⟩ := foldlM_absorb hheaders (none, [])
  rw [scan_of_file hmem hfile, hfold, hsome c width height alpha hc hheader, List.nil_append]

/-- The header that the reader has is the one a file ends with. -/
theorem lastHeader_of_scan (hmem : InMemory bytes) (hlen : 8 ≤ bytes.length)
    (hmagic : bytes.take 8 = magic) {header : Header} {data : List UInt8}
    (h : scan bytes = .ok (some header, data)) :
    ∃ chunks alpha, IsFile bytes chunks ∧ header.colour = (if alpha then 6 else 2) ∧
      LastHeader chunks header.width header.height alpha := by
  obtain ⟨chunks, hfile, hchunks⟩ := file_of_scan hmem hlen hmagic h
  have hheaders := isHeader_of_foldlM hchunks
  obtain ⟨last, hfold, hnone, hsome⟩ := foldlM_absorb hheaders (none, [])
  rw [hchunks] at hfold
  cases hfold
  cases hlast : (chunks.filter fun c => c.kind = PngFormat.header).getLast? with
  | none => exact nomatch hnone hlast
  | some c =>
    have hc := List.mem_filter.mp (List.mem_of_getLast? hlast)
    obtain ⟨w, h, a, hheader⟩ := hheaders c hc.1 (by simpa using hc.2)
    cases hsome c w h a hlast hheader
    exact ⟨chunks, a, hfile, rfl, hheaders, c, hlast, hheader⟩

/-- **A picture is read safely and honestly exactly if its size can be counted.** -/
theorem decode_honest_iff (bytes : List UInt8) (hmem : InMemory bytes) (maxOutput : Nat)
    (hmax : maxOutput < 2 ^ 32) :
    Safe (decode bytes maxOutput) (Honest maxOutput) ↔ ¬ Oversized bytes := by
  by_cases hstart : 8 ≤ bytes.length ∧ bytes.take 8 = magic
  · rw [decode_of_magic hstart.1 hstart.2]
    constructor
    · rintro hsafe ⟨chunks, width, height, alpha, hfile, hlast, hsize⟩
      obtain ⟨-, c, -, -, hwidth, -, hheight, -⟩ := id hlast
      have hpixels : width * height < 2 ^ 64 := by
        calc width * height ≤ 2 ^ 32 * height := Nat.mul_le_mul_right _ (Nat.le_of_lt hwidth)
          _ < 2 ^ 32 * 2 ^ 32 := Nat.mul_lt_mul_of_pos_left hheight (by decide)
      have hchannels :
        (⟨width, height, if alpha then 6 else 2⟩ : Header).channels = channels alpha :=
        channels_eq rfl
      rw [scan_of_lastHeader hmem hfile hlast] at hsafe
      have hnot : ¬ Safe (.error .panic : Result Decoded) (Honest maxOutput) := not_safe_panic
      refine hnot ?_
      rw [← render_oversized hpixels (by rw [hchannels]; exact hsize)]
      exact hsafe
    · intro hsize
      rcases safe_iff.mp (safe_scan hmem hstart.1) with ⟨⟨header, data⟩, hscan, hknown⟩ | ⟨e, hscan⟩
      · rw [hscan]
        cases header with
        | none => exact safe_fail _
        | some header =>
          obtain ⟨chunks, alpha, hfile, hcolour, hlast⟩ :=
            lastHeader_of_scan hmem hstart.1 hstart.2 hscan
          obtain ⟨raw, hheader⟩ := hknown.1 header rfl
          have hdata : InMemory data := lt_of_le_of_lt hknown.2 hmem
          refine safe_render hheader hdata hmax ?_
          rw [channels_eq hcolour]
          by_contra hlarge
          exact hsize ⟨chunks, header.width, header.height, alpha, hfile, hlast,
            Nat.not_lt.mp hlarge⟩
      · rw [hscan]
        exact safe_fail e
  · rw [decode_of_no_magic hstart]
    constructor
    · rintro - ⟨chunks, width, height, alpha, hfile, -, -⟩
      exact hstart (magic_of_isFile hfile)
    · intro _
      exact safe_fail _

/-- A header of 2^31 by 2^31 pixels with alpha. -/
def wrapping : List UInt8 :=
  signature ++
    (PngFormat.be32 13 ++ PngFormat.header ++ [128, 0, 0, 0, 128, 0, 0, 0, 8, 6, 0, 0, 0] ++
    [0, 0, 0, 0])

/-- Its file is of that kind. -/
theorem decode_honest_iff_wrapping : Oversized wrapping := by
  have hpanic : decode wrapping 100 = .error .panic := by decide
  by_contra h
  have hsafe := (decode_honest_iff wrapping (by decide) 100 (by decide)).mpr h
  rw [hpanic] at hsafe
  exact not_safe_panic hsafe

theorem decode_wraps :
    ¬ ∀ bytes maxOutput, InMemory bytes → maxOutput < 2 ^ 32 →
      Safe (decode bytes maxOutput) (Honest maxOutput) := by
  intro h
  have hpanic : decode wrapping 100 = .error .panic := by decide
  have hsafe := h wrapping 100 (by decide) (by decide)
  rw [hpanic] at hsafe
  exact not_safe_panic hsafe

end AiDaemon.Png
