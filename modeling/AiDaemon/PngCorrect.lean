import AiDaemon.InflateCorrect
import AiDaemon.PngSafe

/-!
# The picture reader reads what was written

However a picture is written, with any filter for every row, any stored blocks
and any chunks, it is read as it was (`decode_encoding`).
-/

namespace AiDaemon.Png

open Checked PngFormat
open Inflate (Result InMemory)

/-! ### Bytes -/

theorem paeth_eq_nearest (a b c : UInt8) : paeth a b c = nearest a b c := rfl

/-- **Every filter is undone.** -/
theorem restore_code (f : Filter) (x a b c : UInt8) :
    restore f.code (x - f.predict a b c) a b c = .ok x := by
  cases f with
  | none =>
    rw [restore, if_pos (by decide), Filter.predict, UInt8.sub_zero]
  | sub =>
    rw [restore, if_neg (by decide), if_pos (by decide), Filter.predict, UInt8.sub_add_cancel]
  | up =>
    rw [restore, if_neg (by decide), if_neg (by decide), if_pos (by decide), Filter.predict,
      UInt8.sub_add_cancel]
  | average =>
    rw [restore, if_neg (by decide), if_neg (by decide), if_neg (by decide), if_pos (by decide),
      Filter.predict, UInt8.sub_add_cancel]
  | paeth =>
    rw [restore, if_neg (by decide), if_neg (by decide), if_neg (by decide), if_neg (by decide),
      if_pos (by decide), Filter.predict, paeth_eq_nearest, UInt8.sub_add_cancel]

/-! ### Rows -/

variable (picture : Picture)

/-- The bytes of a row. -/
def row (n : Nat) : List UInt8 := (List.range picture.stride).map (picture.byte n)

theorem length_row (n : Nat) : (row picture n).length = picture.stride := by
  rw [row, List.length_map, List.length_range]

theorem getElem?_row {n i : Nat} (h : i < picture.stride) :
    (row picture n)[i]? = some (picture.byte n i) := by
  rw [row, List.getElem?_map, List.getElem?_range h, Option.map_some]

/-- The row above, for the reader. -/
def aboveRow : Nat → Option (List UInt8)
  | 0 => none
  | n + 1 => some (row picture n)

/-- A row of which this many bytes are read. -/
def partialRow (n i : Nat) : List UInt8 :=
  (List.range i).map (picture.byte n) ++ List.replicate (picture.stride - i) 0

theorem partialRow_set {n i : Nat} (h : i < picture.stride) :
    (partialRow picture n i).set i (picture.byte n i) = partialRow picture n (i + 1) := by
  have hlen : ((List.range i).map (picture.byte n)).length = i := by
    rw [List.length_map, List.length_range]
  rw [partialRow, partialRow, List.set_append_right _ _ (by omega), hlen, Nat.sub_self,
    show picture.stride - i = picture.stride - (i + 1) + 1 by omega, List.replicate_succ,
    List.set_cons_zero, List.range_succ, List.map_append, List.append_assoc]
  rfl

theorem length_partialRow {n i : Nat} (h : i ≤ picture.stride) :
    (partialRow picture n i).length = picture.stride := by
  rw [partialRow, List.length_append, List.length_map, List.length_range, List.length_replicate]
  omega

theorem getElem?_partialRow {n i j : Nat} (h : j < i) :
    (partialRow picture n i)[j]? = some (picture.byte n j) := by
  rw [partialRow, List.getElem?_append_left (by rwa [List.length_map, List.length_range]),
    List.getElem?_map, List.getElem?_range h, Option.map_some]

theorem above_eq {n i : Nat} (h : i < picture.stride) :
    above (aboveRow picture n) i = .ok (picture.up n i) := by
  cases n with
  | zero => rfl
  | succ n => exact get_eq (getElem?_row picture h)

theorem beside_current {n i : Nat} :
    beside (channels picture.alpha) i (get (partialRow picture n i)) = .ok (picture.left n i) := by
  have hpos := channels_pos picture.alpha
  rw [beside, Picture.left]
  split_ifs with hge hlt
  · omega
  · exact get_eq (getElem?_partialRow picture (by omega))
  · rfl
  · omega

theorem beside_above {n i : Nat} (h : i < picture.stride) :
    beside (channels picture.alpha) i (above (aboveRow picture n)) = .ok (picture.upLeft n i) := by
  rw [beside, Picture.upLeft]
  cases n with
  | zero =>
    rw [if_pos rfl]
    split_ifs
    · rfl
    · rfl
  | succ n =>
    rw [if_neg (Nat.succ_ne_zero n), Nat.succ_sub_one, Picture.left]
    split_ifs with hge hlt
    · omega
    · exact above_eq picture (by omega)
    · rfl
    · omega

/-- The loop reads the bytes of a row, one after the other. -/
theorem rowLoop_eq (f : Filter) (n : Nat) {src : List UInt8}
    (hsrc : src = (List.range picture.stride).map (picture.filteredByte f n)) {i count : Nat}
    (hend : i + count = picture.stride) :
    rowLoop f.code (channels picture.alpha) src (aboveRow picture n) (List.range' i count)
      (partialRow picture n i) = .ok (row picture n) := by
  induction count generalizing i with
  | zero =>
    obtain rfl : i = picture.stride := by omega
    rw [List.range'_zero, rowLoop, partialRow, Nat.sub_self, List.replicate_zero, List.append_nil]
    rfl
  | succ count ih =>
    have hi : i < picture.stride := by omega
    have hget : src[i]? = some (picture.filteredByte f n i) := by
      rw [hsrc, List.getElem?_map, List.getElem?_range hi, Option.map_some]
    rw [List.range'_succ, rowLoop, beside_current, bind_ok, above_eq picture hi, bind_ok,
      beside_above picture hi, bind_ok, get_eq hget, bind_ok, Picture.filteredByte, restore_code,
      bind_ok, put_eq (by rwa [length_partialRow picture (Nat.le_of_lt hi)]), bind_ok,
      partialRow_set picture hi, ih (by omega)]

/-! ### Pictures -/

section

variable {α : Type} {f : Nat → List α} {n m : Nat}

theorem length_flatMap_range (hf : ∀ i, (f i).length = n) :
    ((List.range m).flatMap f).length = m * n := by
  induction m with
  | zero => rw [List.range_zero, List.flatMap_nil, Nat.zero_mul, List.length_nil]
  | succ m ih =>
    rw [List.range_succ, List.flatMap_append, List.length_append, ih, List.flatMap_singleton, hf,
      Nat.succ_mul]

/-- Parts of one length, from one of them on. -/
theorem drop_flatMap_range (hf : ∀ i, (f i).length = n) {i : Nat} (h : i < m) :
    ∃ rest, ((List.range m).flatMap f).drop (i * n) = f i ++ rest := by
  obtain ⟨k, rfl⟩ := Nat.exists_eq_add_of_lt h
  have hfirst : i * n = ((List.range i).flatMap f).length := (length_flatMap_range hf).symm
  refine ⟨((List.range' (i + 1) k)).flatMap f, ?_⟩
  have hsplit : List.range (i + k + 1) = List.range i ++ i :: List.range' (i + 1) k := by
    rw [List.range_eq_range', List.range_eq_range', ← List.range'_succ,
      show i + k + 1 = i + (k + 1) by omega]
    have happend : List.range' 0 i ++ List.range' (0 + i) (k + 1) = List.range' 0 (i + (k + 1)) :=
      List.range'_append_1
    rw [← happend, Nat.zero_add]
  rw [hsplit, List.flatMap_append, hfirst, List.drop_left, List.flatMap_cons]

end

/-- The rows that are read, and zeros. -/
def canvas (n : Nat) : List UInt8 :=
  (List.range n).flatMap (row picture) ++
    List.replicate (picture.stride * (picture.height - n)) 0

theorem length_rows (n : Nat) :
    ((List.range n).flatMap (row picture)).length = n * picture.stride :=
  length_flatMap_range (length_row picture)

theorem length_filteredRow (f : Filter) (n : Nat) :
    (picture.filteredRow f n).length = picture.stride + 1 := by
  rw [Picture.filteredRow, List.length_cons, List.length_map, List.length_range]

theorem previousRow_eq {n : Nat} :
    previousRow picture.stride n ((List.range n).flatMap (row picture)) =
      .ok (aboveRow picture n) := by
  rw [previousRow]
  cases n with
  | zero => rfl
  | succ n =>
    have hlen := length_rows picture (n + 1)
    have hsplit : (n + 1) * picture.stride = n * picture.stride + picture.stride := Nat.succ_mul _ _
    rw [if_neg (Nat.succ_ne_zero n), Nat.succ_sub_one, slice_eq (by omega) (Nat.le_refl _), bind_ok,
      List.take_of_length_le (by rw [List.length_drop]), List.range_succ, List.flatMap_append,
      ← length_rows picture n, List.drop_left, List.flatMap_singleton]
    rfl

/-- One row is read into its place. -/
theorem unfilterRow_eq (filters : Nat → Filter)
    (hsmall : (picture.stride + 1) * picture.height < 2 ^ 64)
    {n : Nat} (hn : n < picture.height) :
    unfilterRow (picture.filtered filters) picture.stride (channels picture.alpha) n
      (canvas picture n) = .ok (canvas picture (n + 1)) := by
  have hlen := picture.length_filtered filters
  have hplace := row_fits (n := picture.stride + 1) hn
  have hstart := row_fits (n := picture.stride) hn
  have hle : picture.stride * picture.height ≤ (picture.stride + 1) * picture.height :=
    Nat.mul_le_mul_right _ (Nat.le_succ _)
  have hcomm : picture.height * (picture.stride + 1) = (picture.stride + 1) * picture.height :=
    Nat.mul_comm _ _
  obtain ⟨rest, hdrop⟩ := drop_flatMap_range (fun i => length_filteredRow picture (filters i) i) hn
  have hfilter : (picture.filtered filters)[n * (picture.stride + 1)]? = some (filters n).code := by
    rw [← List.head?_drop, Picture.filtered, hdrop]
    rfl
  have hsrc : ((picture.filtered filters).drop (n * (picture.stride + 1) + 1)).take picture.stride =
      (List.range picture.stride).map (picture.filteredByte (filters n) n) := by
    have hlength : ((List.range picture.stride).map (picture.filteredByte (filters n) n)).length =
        picture.stride := by
      rw [List.length_map, List.length_range]
    rw [← List.drop_drop, Picture.filtered, hdrop, Picture.filteredRow, List.cons_append,
      List.drop_succ_cons, List.drop_zero]
    exact List.take_left' hlength
  have hrows := length_rows picture n
  have hheight : picture.stride * (picture.height - n) =
      picture.stride + picture.stride * (picture.height - (n + 1)) := by
    rw [show picture.height - n = picture.height - (n + 1) + 1 by omega, Nat.mul_succ, Nat.add_comm]
  have hcanvas : (canvas picture n).length = n * picture.stride +
      (picture.stride + picture.stride * (picture.height - (n + 1))) := by
    rw [canvas, List.length_append, hrows, List.length_replicate, hheight]
  have hbefore : (canvas picture n).take (n * picture.stride) =
      (List.range n).flatMap (row picture) := by
    rw [canvas]
    exact List.take_left' hrows
  have htail : (canvas picture n).drop (n * picture.stride) =
      List.replicate picture.stride 0 ++
        List.replicate (picture.stride * (picture.height - (n + 1))) 0 := by
    rw [canvas, List.drop_left' hrows, hheight, List.replicate_add]
  have hblank : List.replicate picture.stride 0 = partialRow picture n 0 := by
    rw [partialRow, List.range_zero, List.map_nil, List.nil_append, Nat.sub_zero]
  have hcurrent : (slice (List.replicate picture.stride (0 : UInt8) ++
      List.replicate (picture.stride * (picture.height - (n + 1))) 0) 0 picture.stride :
        Result (List UInt8)) = .ok (partialRow picture n 0) := by
    have hroom : picture.stride ≤ (List.replicate picture.stride (0 : UInt8) ++
        List.replicate (picture.stride * (picture.height - (n + 1))) 0).length := by
      rw [List.length_append, List.length_replicate]
      exact Nat.le_add_right _ _
    rw [slice_eq (Nat.zero_le _) hroom, List.drop_zero, Nat.sub_zero,
      List.take_left' List.length_replicate, hblank]
  rw [unfilterRow, fits_eq (by omega), bind_ok, get_eq hfilter, bind_ok,
    slice_eq (by omega) (by omega), bind_ok, Nat.add_sub_cancel_left, hsrc, fits_eq (by omega),
    bind_ok,
    slice_eq (Nat.zero_le _) (by omega), bind_ok, List.drop_zero, Nat.sub_zero, hbefore,
    slice_eq (by omega) (Nat.le_refl _), bind_ok, List.take_of_length_le (by rw [List.length_drop]),
    htail, previousRow_eq, bind_ok, hcurrent, bind_ok]
  -- the row is read, and stands after the rows before it
  have hread := rowLoop_eq picture (filters n) n rfl (Nat.zero_add picture.stride)
  rw [← List.range_eq_range'] at hread
  rw [hread, bind_ok, pure_eq, List.drop_left' List.length_replicate, canvas, List.range_succ,
    List.flatMap_append, List.flatMap_singleton]

theorem rowsLoop_eq (filters : Nat → Filter)
    (hsmall : (picture.stride + 1) * picture.height < 2 ^ 64)
    {n count : Nat} (hend : n + count = picture.height) :
    rowsLoop (picture.filtered filters) picture.stride (channels picture.alpha)
    (List.range' n count)
      (canvas picture n) = .ok (canvas picture picture.height) := by
  induction count generalizing n with
  | zero =>
    obtain rfl : n = picture.height := by omega
    rfl
  | succ count ih =>
    rw [List.range'_succ, rowsLoop, unfilterRow_eq picture filters hsmall (by omega), bind_ok,
      ih (by omega)]

/-- The rows are the picture. -/
theorem flatMap_row : (List.range picture.height).flatMap (row picture) = picture.pixels := by
  have htake : ∀ n ≤ picture.height,
      (List.range n).flatMap (row picture) = picture.pixels.take (n * picture.stride) := by
    intro n hn
    induction n with
    | zero => rw [List.range_zero, List.flatMap_nil, Nat.zero_mul, List.take_zero]
    | succ n ih =>
      have hfits := row_fits (n := picture.stride) (show n < picture.height by omega)
      have hlen := picture.length_eq
      have hcomm := Nat.mul_comm picture.height picture.stride
      rw [List.range_succ, List.flatMap_append, ih (by omega), List.flatMap_singleton, Nat.succ_mul,
        List.take_add]
      refine congrArg _ (List.ext_getElem? fun i => ?_)
      rcases Nat.lt_or_ge i picture.stride with hi | hi
      · rw [getElem?_row picture hi, List.getElem?_take_of_lt hi, List.getElem?_drop, Picture.byte,
          List.getD_eq_getElem?_getD, List.getElem?_eq_getElem (by omega), Option.getD_some]
      · rw [List.getElem?_eq_none (by rwa [length_row]), List.getElem?_eq_none]
        rw [List.length_take]
        exact Nat.le_trans (Nat.min_le_left _ _) hi
  rw [htake _ (Nat.le_refl _), ← picture.length_eq, List.take_length]

theorem unfilter_eq (filters : Nat → Filter) (header : Header)
    (hwidth : header.width = picture.width)
    (hheight : header.height = picture.height)
    (hsmall : (picture.stride + 1) * picture.height < 2 ^ 64) :
    unfilter (picture.filtered filters) header (channels picture.alpha) = .ok picture.pixels := by
  have hpos := picture.height_pos
  have hline : picture.stride + 1 ≤ (picture.stride + 1) * picture.height :=
    Nat.le_mul_of_pos_right _ hpos
  have hle : picture.stride * picture.height ≤ (picture.stride + 1) * picture.height :=
    Nat.mul_le_mul_right _ (Nat.le_succ _)
  have hblank : List.replicate (picture.stride * picture.height) 0 = canvas picture 0 := by
    rw [canvas, List.range_zero, List.flatMap_nil, List.nil_append, Nat.sub_zero]
  have hfull : canvas picture picture.height = picture.pixels := by
    rw [canvas, Nat.sub_self, Nat.mul_zero, List.replicate_zero, List.append_nil, flatMap_row]
  rw [unfilter, hwidth, hheight, ← Picture.stride, fits_eq (by omega), bind_ok, fits_eq (by omega),
    bind_ok, fits_eq hsmall, bind_ok,
    if_neg (by rw [picture.length_filtered, Nat.mul_comm]; exact Nat.lt_irrefl _),
    fits_eq (by omega), bind_ok, hblank, List.range_eq_range',
    rowsLoop_eq picture filters hsmall (Nat.zero_add _), hfull]

/-! ### Files -/

/-- The two bytes before a stream are passed over. -/
theorem zlib_of_prelude {cmf flags : UInt8} (h : IsPrelude cmf flags) (rest : List UInt8)
    (maxOutput : Nat) :
    Inflate.zlib (cmf :: flags :: rest) maxOutput = Inflate.inflate rest maxOutput := by
  obtain ⟨hmethod, hcheck, hdictionary⟩ := h
  have hcmf := cmf.toNat_lt
  have hflags := flags.toNat_lt
  have hand : cmf.toNat &&& 0x0f = cmf.toNat % 16 := Nat.and_two_pow_sub_one_eq_mod cmf.toNat 4
  have hbit : flags.toNat &&& 0x20 = 0 := by
    have htwo : flags.toNat &&& 2 ^ 5 = (flags.toNat.testBit 5).toNat * 2 ^ 5 := Nat.and_two_pow _ 5
    rw [hdictionary] at htwo
    exact htwo
  have hlen : ¬ (cmf :: flags :: rest).length < 2 := by
    simp only [List.length_cons]
    omega
  have hslice :
    (slice (cmf :: flags :: rest) 2 (cmf :: flags :: rest).length : Result (List UInt8)) =
      .ok rest := by
    rw [slice_eq (Nat.not_lt.mp hlen) (Nat.le_refl _)]
    exact congrArg Except.ok (List.take_of_length_le (Nat.le_refl _))
  have hget : (get (cmf :: flags :: rest) 0 : Result UInt8) = .ok cmf := rfl
  have hget' : (get (cmf :: flags :: rest) 1 : Result UInt8) = .ok flags := rfl
  rw [Inflate.zlib, if_neg hlen, hget, bind_ok, hget', bind_ok, hand,
    if_neg (fun hne => hne hmethod), fits_eq (by omega), bind_ok, if_neg (fun hne => hne hcheck),
    if_neg (fun hne => hne hbit), hslice, bind_ok]

variable {picture}

/-- The stream in the data chunks is inflated to the filtered rows. -/
theorem zlib_encoding (encoding : Encoding picture) {data : List UInt8}
    (hdata : data = encoding.cmf :: encoding.flags ::
      (Deflate.storedStream encoding.blocks ++ encoding.checksum))
    (hmem : InMemory data) {maxOutput : Nat}
    (hmax : picture.height * (picture.stride + 1) ≤ maxOutput) :
    Inflate.zlib data maxOutput = .ok (picture.filtered encoding.filters) := by
  have hstream := Deflate.stream_storedStream encoding.blocks_ne encoding.blocks_short 0 []
  rw [List.nil_append, encoding.blocks_flatten] at hstream
  rw [hdata, zlib_of_prelude encoding.prelude]
  refine Inflate.inflate_of_stream ?_ hstream (BitList.ofBytes_append _ _) ?_
  · rw [hdata] at hmem
    have hlen : (Deflate.storedStream encoding.blocks ++ encoding.checksum).length ≤
        (encoding.cmf :: encoding.flags ::
          (Deflate.storedStream encoding.blocks ++ encoding.checksum)).length := by
      simp only [List.length_cons]
      omega
    exact lt_of_le_of_lt hlen hmem
  · rwa [picture.length_filtered]

theorem lastHeader_encoding (encoding : Encoding picture) :
    LastHeader encoding.chunks picture.width picture.height picture.alpha := by
  obtain ⟨c, hfilter, hheader⟩ := encoding.chunks_header
  constructor
  · intro d hd hkind
    have hmem : d ∈ encoding.chunks.filter fun c => c.kind = PngFormat.header :=
      List.mem_filter.mpr ⟨hd, by simpa using hkind⟩
    rw [hfilter, List.mem_singleton] at hmem
    rw [hmem]
    exact ⟨_, _, _, hheader⟩
  · exact ⟨c, by rw [hfilter]; rfl, hheader⟩

/-- **A picture that is written is read as it was**, whatever the filters of its
    rows, the blocks of its stream and the chunks of its file are. -/
theorem decode_encoding (picture : Picture) (encoding : Encoding picture)
    (hmem : InMemory encoding.bytes) (maxOutput : Nat) (hmax : maxOutput < 2 ^ 32)
    (hsize : picture.width * picture.height * channels picture.alpha ≤ maxOutput) :
    decode encoding.bytes maxOutput = .ok ⟨some picture.width, some picture.height,
      some (if picture.alpha then rgba8 else rgb8), none, picture.pixels⟩ := by
  have hfile := encoding.isFile
  obtain ⟨hlen, hmagic⟩ := magic_of_isFile hfile
  have hscan := scan_of_lastHeader hmem hfile (lastHeader_encoding encoding)
  have hdata := ((safe_scan hmem hlen).of_ok hscan).2
  rw [encoding.chunks_data] at hscan hdata
  have hheader :
    (⟨picture.width, picture.height, if picture.alpha then 6 else 2⟩ : Header).channels =
      channels picture.alpha := channels_eq rfl
  have hchannels := channels_pos picture.alpha
  have hpixels : picture.width * picture.height ≤
      picture.width * picture.height * channels picture.alpha := Nat.le_mul_of_pos_right _ hchannels
  have hheight : picture.height ≤ picture.width * picture.height :=
    Nat.le_mul_of_pos_left _ picture.width_pos
  have hlines : picture.height * (picture.stride + 1) =
      picture.width * picture.height * channels picture.alpha + picture.height := by
    rw [Nat.mul_succ, ← picture.length_eq, picture.length_pixels]
  have hzlib := zlib_encoding encoding rfl (lt_of_le_of_lt hdata hmem)
    (show picture.height * (picture.stride + 1) ≤ picture.width * picture.height *
      channels picture.alpha + picture.height * 2 by omega)
  have hunfilter := unfilter_eq picture encoding.filters
    ⟨picture.width, picture.height, if picture.alpha then 6 else 2⟩ rfl rfl
    (by rw [Nat.mul_comm]; omega)
  have hformat : (if channels picture.alpha = 4 then rgba8 else rgb8) =
      if picture.alpha then rgba8 else rgb8 := by
    cases picture.alpha <;> rfl
  rw [decode_of_magic hlen hmagic, hscan]
  show render _ _ _ = _
  rw [render, hheader]
  dsimp only
  rw [fits_eq (by omega), bind_ok, fits_eq (by omega), bind_ok, if_neg (Nat.not_lt.mpr hsize),
    fits_eq (by omega), bind_ok, fits_eq (by omega), bind_ok, hzlib, bind_ok, hunfilter, bind_ok,
    hformat, pure_eq]

/-- Two rows of one pixel. -/
def column : Picture where
  width := 1
  height := 2
  alpha := false
  pixels := [10, 20, 30, 40, 50, 60]
  width_pos := by decide
  height_pos := by decide
  length_pixels := by decide

/-- The second row with another filter, two stored blocks, a chunk of text, and two
    chunks of data. -/
def columnEncoding : Encoding column where
  filters row := if row = 0 then .paeth else .up
  blocks := [[4, 10, 20], [30, 2, 30, 30, 30]]
  cmf := 120
  flags := 1
  checksum := [0, 0, 0, 0]
  chunks :=
    [⟨PngFormat.header, [0, 0, 0, 1, 0, 0, 0, 2, 8, 2, 0, 0, 0], [0, 0, 0, 0], rfl, by decide, rfl⟩,
      ⟨imageData, [120, 1, 0, 3, 0], [0, 0, 0, 0], rfl, by decide, rfl⟩,
      ⟨[116, 69, 88, 116], [104, 105], [0, 0, 0, 0], rfl, by decide, rfl⟩,
      ⟨imageData, [252, 255, 4, 10, 20, 1, 5, 0, 250, 255, 30, 2, 30, 30, 30, 0, 0, 0, 0],
        [0, 0, 0, 0], rfl, by decide, rfl⟩]
  last := ⟨ending, [], [0, 0, 0, 0], rfl, by decide, rfl⟩
  rest := []
  blocks_ne := by decide
  blocks_short := by decide
  blocks_flatten := by decide
  prelude := ⟨by decide, by decide, by decide⟩
  chunks_header := ⟨_, rfl, by decide, by decide, by decide, by decide, 0, 0, [], rfl⟩
  chunks_data := by decide
  chunks_ending := by decide
  last_kind := rfl

theorem decode_encoding_column : decode columnEncoding.bytes 6 =
    .ok ⟨some 1, some 2, some rgb8, none, [10, 20, 30, 40, 50, 60]⟩ :=
  decode_encoding column columnEncoding (by decide) 6 (by decide) (by decide)

end AiDaemon.Png
