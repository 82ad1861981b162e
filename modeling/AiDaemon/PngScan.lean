import AiDaemon.Fallible
import AiDaemon.InflateSafe
import AiDaemon.Png
import AiDaemon.PngFormat

/-!
# Chunks and headers

The loop over the chunks reads the chunks of a file (`scan_of_file`), and what it
has read was a file (`file_of_scan`); a header is accepted exactly if it is one
of the format (`parse_spec`).
-/

namespace AiDaemon.Png

open Checked BitList Fallible PngFormat
open Inflate (Result InMemory)

variable {bytes : List UInt8}

/-! ### Numbers -/

/-- Four bytes as a number. -/
def value (a b c d : UInt8) : Nat := ((a.toNat * 256 + b.toNat) * 256 + c.toNat) * 256 + d.toNat

theorem value_lt (a b c d : UInt8) : value a b c d < 2 ^ 32 := by
  have ha := a.toNat_lt
  have hb := b.toNat_lt
  have hc := c.toNat_lt
  have hd := d.toNat_lt
  unfold value
  omega

theorem be32_value (a b c d : UInt8) : PngFormat.be32 (value a b c d) = [a, b, c, d] := by
  have ha := a.toNat_lt
  have hb := b.toNat_lt
  have hc := c.toNat_lt
  have hd := d.toNat_lt
  have hbyte : ∀ (n : Nat) (x : UInt8), n % 256 = x.toNat → UInt8.ofNat n = x := by
    intro n x h
    exact UInt8.toNat_inj.mp (by rw [UInt8.toNat_ofNat', h])
  unfold PngFormat.be32 value
  rw [hbyte _ a (by omega), hbyte _ b (by omega), hbyte _ c (by omega), hbyte _ d (by omega)]

theorem value_be32 {n : Nat} (h : n < 2 ^ 32) :
    value (UInt8.ofNat (n / 2 ^ 24)) (UInt8.ofNat (n / 2 ^ 16)) (UInt8.ofNat (n / 2 ^ 8))
      (UInt8.ofNat n) = n := by
  unfold value
  simp only [UInt8.toNat_ofNat']
  omega

theorem be32_cons (a b c d : UInt8) (rest : List UInt8) :
    be32 (a :: b :: c :: d :: rest) = .ok (value a b c d) := by
  have hlen : ¬ (a :: b :: c :: d :: rest).length < 4 := by
    simp only [List.length_cons]
    omega
  rw [be32, if_neg hlen]
  rfl

theorem be32_append {n : Nat} (h : n < 2 ^ 32) (rest : List UInt8) :
    be32 (PngFormat.be32 n ++ rest) = .ok n :=
  (be32_cons _ _ _ _ rest).trans (congrArg Except.ok (value_be32 h))

/-! ### Headers -/

/-- A header as the format has it. -/
def HeaderOf (data : List UInt8) (h : Header) : Prop :=
  ∃ alpha : Bool, h.colour = (if alpha then 6 else 2) ∧ IsHeader data h.width h.height alpha

theorem channels_eq {h : Header} {alpha : Bool} (hcolour : h.colour = (if alpha then 6 else 2)) :
    h.channels = channels alpha := by
  cases alpha with
  | false =>
    rw [Header.channels, hcolour]
    rfl
  | true =>
    rw [Header.channels, hcolour]
    rfl

theorem parse_short {data : List UInt8} (h : data.length < 13) :
    Header.parse data = fail "short IHDR".toList := if_pos h

/-- A header with all its bytes. -/
theorem parse_cons (a b c d e f g h depth colour compression filter interlace : UInt8)
    (rest : List UInt8) :
    Header.parse
    (a :: b :: c :: d :: e :: f :: g :: h :: depth :: colour :: compression :: filter ::
        interlace :: rest) =
      if value a b c d = 0 ∨ value e f g h = 0 then fail "zero-sized image".toList
      else if depth ≠ 8 then fail (depthText depth.toNat)
      else if interlace ≠ 0 then fail "interlaced PNG is not accepted".toList
      else if colour ≠ 2 ∧ colour ≠ 6 then
        fail "only truecolour PNG (with or without alpha) is accepted".toList
      else .ok ⟨value a b c d, value e f g h, colour⟩ := by
  rw [Header.parse, if_neg (by simp only [List.length_cons]; omega), be32_cons, bind_ok,
    slice_eq (by simp only [List.length_cons]; omega) (Nat.le_refl _), bind_ok]
  have hdrop : ((a :: b :: c :: d :: e :: f :: g :: h :: depth :: colour :: compression :: filter ::
      interlace :: rest).drop 4).take ((a :: b :: c :: d :: e :: f :: g :: h :: depth :: colour ::
        compression :: filter :: interlace :: rest).length - 4) =
      e :: f :: g :: h :: depth :: colour :: compression :: filter :: interlace :: rest :=
    List.take_of_length_le (by
      simp only [List.length_cons, List.drop_succ_cons, List.drop_zero]
      omega)
  rw [hdrop, be32_cons, bind_ok]
  rfl

/-- **A header is accepted if it is one**, with its size. -/
theorem parse_of_isHeader {data : List UInt8} {width height : Nat} {alpha : Bool}
    (h : IsHeader data width height alpha) :
    Header.parse data = .ok ⟨width, height, if alpha then 6 else 2⟩ := by
  obtain ⟨hwidth, hwidth', hheight, hheight', compression, filter, rest, rfl⟩ := h
  have hzero : ¬ (width = 0 ∨ height = 0) := by omega
  have hcolour :
    ¬ ((if alpha then 6 else 2 : UInt8) ≠ 2 ∧ (if alpha then 6 else 2 : UInt8) ≠ 6) := by
    cases alpha <;> decide
  generalize (if alpha then 6 else 2 : UInt8) = colour at hcolour ⊢
  have hparse := parse_cons (UInt8.ofNat (width / 2 ^ 24)) (UInt8.ofNat (width / 2 ^ 16))
    (UInt8.ofNat (width / 2 ^ 8)) (UInt8.ofNat width) (UInt8.ofNat (height / 2 ^ 24))
    (UInt8.ofNat (height / 2 ^ 16)) (UInt8.ofNat (height / 2 ^ 8)) (UInt8.ofNat height) 8
    colour compression filter 0 rest
  rw [value_be32 hwidth', value_be32 hheight', if_neg hzero,
    if_neg (show ¬ (8 : UInt8) ≠ 8 by decide),
    if_neg (show ¬ (0 : UInt8) ≠ 0 by decide), if_neg hcolour] at hparse
  exact hparse

/-- Thirteen bytes one by one. -/
theorem exists_header_bytes {data : List UInt8} (h : ¬ data.length < 13) :
    ∃ a b c d e f g i depth colour compression filter interlace rest,
      data = a :: b :: c :: d :: e :: f :: g :: i :: depth :: colour :: compression :: filter ::
        interlace :: rest := by
  match data with
  | a :: b :: c :: d :: e :: f :: g :: i :: depth :: colour :: compression :: filter :: interlace ::
      rest =>
        exact ⟨a, b, c, d, e, f, g, i, depth, colour, compression, filter, interlace, rest, rfl⟩
  | [] | [_] | [_, _] | [_, _, _] | [_, _, _, _] | [_, _, _, _, _] | [_, _, _, _, _, _]
  | [_, _, _, _, _, _, _] | [_, _, _, _, _, _, _, _] | [_, _, _, _, _, _, _, _, _]
  | [_, _, _, _, _, _, _, _, _, _] | [_, _, _, _, _, _, _, _, _, _, _]
  | [_, _, _, _, _, _, _, _, _, _, _, _] =>
    simp at h

/-- **What is accepted is a header**, and nothing else is read of it. -/
theorem parse_spec (data : List UInt8) : Safe (Header.parse data) (HeaderOf data) := by
  by_cases hlen : data.length < 13
  · rw [parse_short hlen]
    exact safe_fail _
  obtain ⟨a, b, c, d, e, f, g, i, depth, colour, compression, filter, interlace, rest, rfl⟩ :=
    exists_header_bytes hlen
  rw [parse_cons]
  split_ifs with hzero hdepth hinterlace hcolour
  · exact safe_fail _
  · exact safe_fail _
  · exact safe_fail _
  · exact safe_fail _
  · have hdepth : depth = 8 := by simpa using hdepth
    have hinterlace : interlace = 0 := by simpa using hinterlace
    subst hdepth hinterlace
    have hcolour' : ∃ alpha : Bool, colour = if alpha then 6 else 2 := by
      by_cases htwo : colour = 2
      · exact ⟨false, htwo⟩
      · by_cases hsix : colour = 6
        · exact ⟨true, hsix⟩
        · exact absurd ⟨htwo, hsix⟩ hcolour
    obtain ⟨alpha, hcolour'⟩ := hcolour'
    refine safe_ok ⟨alpha, hcolour', ?_⟩
    dsimp only
    refine ⟨by omega, value_lt a b c d, by omega, value_lt e f g i, compression, filter, rest, ?_⟩
    rw [be32_value, be32_value, hcolour']
    rfl

/-! ### Chunks -/

theorem ihdr_eq : ihdr = PngFormat.header := rfl

theorem idat_eq : idat = imageData := rfl

theorem iend_eq : iend = ending := rfl

/-- What the reader knows after a chunk. -/
def absorb (known : Option Header × List UInt8) (c : Chunk) : Result (Option Header × List UInt8) :=
  if c.kind = PngFormat.header then do
    let header ← Header.parse c.data
    return (some header, known.2)
  else if c.kind = imageData then return (known.1, known.2 ++ c.data)
  else return known

section

variable {offset fuel : Nat} {known : Option Header × List UInt8}

/-- The loop ends where no chunk fits. -/
theorem scanLoop_cut (hmem : InMemory bytes) (hoffset : offset ≤ bytes.length)
    (hcut : (bytes.drop offset).length < 8) :
    scanLoop bytes (fuel + 1) offset known.1 known.2 = .ok known := by
  unfold InMemory at hmem
  rw [List.length_drop] at hcut
  rw [scanLoop, fits_eq (by omega), bind_ok, if_neg (by omega)]
  rfl

/-- The parts of a chunk that is there. -/
theorem slices_of_chunk {c : Chunk} {rest : List UInt8} (hoffset : offset ≤ bytes.length)
    (h : bytes.drop offset = c.bytes ++ rest) :
    offset + (12 + c.data.length) ≤ bytes.length ∧
      (bytes.drop offset).take (bytes.length - offset) = c.bytes ++ rest ∧
      (bytes.drop (offset + 4)).take 4 = c.kind ∧
      (bytes.drop (offset + 8)).take c.data.length = c.data ∧
      bytes.drop (offset + c.bytes.length) = rest := by
  have hlen := congrArg List.length h
  rw [List.length_append, c.length_bytes, List.length_drop] at hlen
  have hkind : bytes.drop (offset + 4) = c.kind ++ (c.data ++ c.checksum ++ rest) := by
    have hdrop := congrArg (List.drop 4) h
    rw [List.drop_drop] at hdrop
    rw [hdrop, Chunk.bytes, List.append_assoc, List.append_assoc]
    rfl
  have hdata : bytes.drop (offset + 8) = c.data ++ (c.checksum ++ rest) := by
    have hdrop := congrArg (List.drop 4) hkind
    rw [List.drop_drop, show 4 = c.kind.length from c.length_kind.symm, List.drop_left,
      c.length_kind, List.append_assoc] at hdrop
    exact hdrop
  refine ⟨by omega, ?_, ?_, ?_, ?_⟩
  · rw [List.take_of_length_le (by rw [List.length_drop]), h]
  · rw [hkind, show 4 = c.kind.length from c.length_kind.symm, List.take_left]
  · rw [hdata, List.take_left]
  · rw [← List.drop_drop, h, List.drop_left]

/-- One turn of the loop reads one chunk. -/
theorem scanLoop_chunk (hmem : InMemory bytes) {c : Chunk} {rest : List UInt8}
    (hoffset : offset ≤ bytes.length) (h : bytes.drop offset = c.bytes ++ rest) :
    scanLoop bytes (fuel + 1) offset known.1 known.2 =
      if c.kind = ending then .ok known
      else (absorb known c).bind fun known =>
        scanLoop bytes fuel (offset + c.bytes.length) known.1 known.2 := by
  obtain ⟨hle, hrest, hkind, hdata, -⟩ := slices_of_chunk hoffset h
  have hstop : offset + 8 + c.data.length + 4 = offset + c.bytes.length := by
    rw [c.length_bytes]
    omega
  have hsize := c.length_data
  unfold InMemory at hmem
  have hkind' : (slice bytes (offset + 4) (offset + 8) : Result (List UInt8)) = .ok c.kind := by
    rw [slice_eq (by omega) (by omega), show offset + 8 - (offset + 4) = 4 by omega, hkind]
  have hdata' : (slice bytes (offset + 8) (offset + 8 + c.data.length) : Result (List UInt8)) =
      .ok c.data := by
    rw [slice_eq (by omega) (by omega), Nat.add_sub_cancel_left, hdata]
  have hbytes : c.bytes ++ rest = PngFormat.be32 c.data.length ++
      ((c.kind ++ (c.data ++ c.checksum)) ++ rest) := by
    rw [Chunk.bytes, List.append_assoc]
  rw [scanLoop, fits_eq (by omega), bind_ok, if_pos (by omega), slice_eq hoffset (Nat.le_refl _),
    bind_ok, hrest, hbytes, be32_append hsize, bind_ok, hkind', bind_ok, if_neg (by omega)]
  dsimp only
  rw [fits_eq (by omega), bind_ok, if_neg (by omega), hdata', bind_ok, bind_ok, hstop, ihdr_eq,
    idat_eq, iend_eq]
  unfold absorb
  by_cases hheader : c.kind = PngFormat.header
  · have hne : c.kind ≠ ending := by
      rw [hheader]
      decide
    rw [if_pos hheader, if_neg hne, if_pos hheader]
    cases Header.parse c.data with
    | ok header => rfl
    | error e => rfl
  · by_cases himage : c.kind = imageData
    · have hne : c.kind ≠ ending := by
        rw [himage]
        decide
      rw [if_neg hheader, if_pos himage, if_neg hne, if_neg hheader, if_pos himage]
      rfl
    · rw [if_neg hheader, if_neg himage]
      split_ifs
      · rfl
      · rfl

variable (fuel known) in
/-- Where there is room for a chunk there is one, or it is cut off. -/
theorem exists_chunk (hmem : InMemory bytes) (hoffset : offset ≤ bytes.length)
    (hroom : ¬ (bytes.drop offset).length < 8) :
    (∃ (c : Chunk) (rest : List UInt8), bytes.drop offset = c.bytes ++ rest) ∨
      scanLoop bytes (fuel + 1) offset known.1 known.2 = fail "truncated chunk".toList := by
  match hbytes : bytes.drop offset, hroom with
  | a :: b :: c :: d :: k :: l :: m :: n :: tail, _ =>
    have hvalue := value_lt a b c d
    have hlen := congrArg List.length hbytes
    simp only [List.length_drop, List.length_cons] at hlen
    by_cases hfits : value a b c d + 4 ≤ tail.length
    · -- the chunk is complete
      have hdata : (tail.take (value a b c d)).length = value a b c d :=
        List.length_take_of_le (by omega)
      refine .inl ⟨⟨[k, l, m, n], tail.take (value a b c d),
        (tail.drop (value a b c d)).take 4, rfl,
        lt_of_eq_of_lt hdata hvalue, ?_⟩, tail.drop (value a b c d + 4), ?_⟩
      · rw [List.length_take_of_le]
        rw [List.length_drop]
        omega
      · rw [Chunk.bytes]
        dsimp only
        rw [hdata, be32_value, ← List.drop_drop, List.append_assoc, List.append_assoc,
          List.append_assoc, List.take_append_drop, List.take_append_drop]
        rfl
    · -- its length reaches past the end
      refine .inr ?_
      unfold InMemory at hmem
      rw [scanLoop, fits_eq (by omega), bind_ok, if_pos (by omega),
        slice_eq hoffset (Nat.le_refl _),
        bind_ok, List.take_of_length_le (by rw [List.length_drop]), hbytes, be32_cons, bind_ok,
        slice_eq (by omega) (by omega), bind_ok, if_neg (by omega)]
      dsimp only
      rw [fits_eq (by omega), bind_ok, if_pos (by omega)]
  | [], h | [_], h | [_, _], h | [_, _, _], h | [_, _, _, _], h | [_, _, _, _, _], h
  | [_, _, _, _, _, _], h | [_, _, _, _, _, _, _], h => simp at h

theorem lt_of_chunk {c : Chunk} {rest : List UInt8} (h : bytes.drop offset = c.bytes ++ rest) :
    offset + c.bytes.length ≤ bytes.length := by
  have hlen := congrArg List.length h
  have hpos := c.length_bytes
  rw [List.length_append, List.length_drop] at hlen
  omega

variable (known) in
/-- The loop reads the chunks of a file one after the other. -/
theorem scanLoop_chunks (hmem : InMemory bytes) {chunks : List Chunk} {tail : List UInt8}
    (hends : Ends tail) (hchunks : ∀ c ∈ chunks, c.kind ≠ ending) (hoffset : offset ≤ bytes.length)
    (h : bytes.drop offset = chunks.flatMap Chunk.bytes ++ tail)
    (hfuel : bytes.length < offset + fuel) :
    scanLoop bytes fuel offset known.1 known.2 = chunks.foldlM absorb known := by
  induction chunks generalizing offset fuel known with
  | nil =>
    obtain ⟨fuel, rfl⟩ := Nat.exists_eq_succ_of_ne_zero (show fuel ≠ 0 by omega)
    rw [List.flatMap_nil, List.nil_append] at h
    rcases hends with hcut | ⟨c, rest, hkind, rfl⟩
    · exact scanLoop_cut hmem hoffset (by rwa [h])
    · rw [Nat.succ_eq_add_one, scanLoop_chunk hmem hoffset h, if_pos hkind]
      rfl
  | cons c chunks ih =>
    rw [List.forall_mem_cons] at hchunks
    rw [List.flatMap_cons, List.append_assoc] at h
    have hle := lt_of_chunk h
    have hpos := c.length_bytes
    obtain ⟨fuel, rfl⟩ := Nat.exists_eq_succ_of_ne_zero (show fuel ≠ 0 by omega)
    have hnext := (slices_of_chunk hoffset h).2.2.2.2
    rw [Nat.succ_eq_add_one, scanLoop_chunk hmem hoffset h, if_neg hchunks.1, List.foldlM_cons]
    refine congrArg _ (funext fun known => ?_)
    exact ih known hchunks.2 hle hnext (by omega)

variable (known) in
/-- What the loop has read was the chunks of a file. -/
theorem chunks_of_scanLoop (hmem : InMemory bytes) (hoffset : offset ≤ bytes.length)
    {result : Option Header × List UInt8}
    (h : scanLoop bytes fuel offset known.1 known.2 = .ok result) :
    ∃ (chunks : List Chunk) (tail : List UInt8), Ends tail ∧ (∀ c ∈ chunks, c.kind ≠ ending) ∧
      bytes.drop offset = chunks.flatMap Chunk.bytes ++ tail ∧
      chunks.foldlM absorb known = .ok result := by
  induction fuel generalizing offset known with
  | zero => cases h
  | succ fuel ih =>
    by_cases hcut : (bytes.drop offset).length < 8
    · rw [scanLoop_cut hmem hoffset hcut] at h
      exact ⟨[], _, .inl hcut, List.forall_mem_nil _, rfl, h⟩
    rcases exists_chunk fuel known hmem hoffset hcut with ⟨c, rest, hc⟩ | hfail
    · rw [scanLoop_chunk hmem hoffset hc] at h
      split_ifs at h with hkind
      · exact ⟨[], _, .inr ⟨c, rest, hkind, hc⟩, List.forall_mem_nil _, rfl, h⟩
      · obtain ⟨known', habsorb, h⟩ := bind_eq_ok.mp h
        obtain ⟨chunks, tail, hends, hchunks, hdrop, hfold⟩ := ih known' (lt_of_chunk hc) h
        rw [(slices_of_chunk hoffset hc).2.2.2.2] at hdrop
        refine ⟨c :: chunks, tail, hends, List.forall_mem_cons.mpr ⟨hkind, hchunks⟩, ?_, ?_⟩
        · rw [List.flatMap_cons, List.append_assoc, ← hdrop, hc]
        · rw [List.foldlM_cons, habsorb, bind_ok, hfold]
    · rw [hfail] at h
      cases h

/-- What is known of the header, and how much data there is. -/
def Known (size : Nat) (known : Option Header × List UInt8) : Prop :=
  (∀ header, known.1 = some header → ∃ data, HeaderOf data header) ∧ known.2.length ≤ size

theorem safe_absorb {size : Nat} (hknown : Known size known) (c : Chunk) :
    Safe (absorb known c) (Known (size + c.bytes.length)) := by
  have hlen := c.length_bytes
  obtain ⟨hheader, hsize⟩ := hknown
  rw [absorb]
  split_ifs
  · refine (parse_spec c.data).bind fun header hparse => safe_ok ⟨?_, by dsimp only; omega⟩
    rintro _ ⟨⟩
    exact ⟨_, hparse⟩
  · refine safe_ok ⟨hheader, ?_⟩
    rw [List.length_append]
    omega
  · exact safe_ok ⟨hheader, by omega⟩

variable (known) in
/-- The loop ends, and stays in the file. -/
theorem safe_scanLoop (hmem : InMemory bytes) (hoffset : offset ≤ bytes.length)
    (hknown : Known offset known) (hfuel : bytes.length < offset + fuel) :
    Safe (scanLoop bytes fuel offset known.1 known.2) (Known bytes.length) := by
  induction fuel generalizing offset known with
  | zero => omega
  | succ fuel ih =>
    have hall : Known bytes.length known := ⟨hknown.1, Nat.le_trans hknown.2 hoffset⟩
    by_cases hcut : (bytes.drop offset).length < 8
    · rw [scanLoop_cut hmem hoffset hcut]
      exact safe_ok hall
    rcases exists_chunk fuel known hmem hoffset hcut with ⟨c, rest, hc⟩ | hfail
    · have hlen := c.length_bytes
      rw [scanLoop_chunk hmem hoffset hc]
      split_ifs with hkind
      · exact safe_ok hall
      · exact (safe_absorb hknown c).bind fun known' hknown' =>
          ih known' (lt_of_chunk hc) hknown' (by omega)
    · rw [hfail]
      exact safe_fail _

end

/-! ### Files -/

/-- With headers that are headers, the last one is known at the end, and all data. -/
theorem foldlM_absorb {chunks : List Chunk}
    (hheaders : ∀ c ∈ chunks, c.kind = PngFormat.header → ∃ w h a, IsHeader c.data w h a)
    (known : Option Header × List UInt8) :
    ∃ header, chunks.foldlM absorb known = .ok (header,
        known.2 ++ (chunks.filter fun c => c.kind = imageData).flatMap Chunk.data) ∧
      ((chunks.filter fun c => c.kind = PngFormat.header).getLast? = none → header = known.1) ∧
      ∀ c w h a, (chunks.filter fun c => c.kind = PngFormat.header).getLast? = some c →
        IsHeader c.data w h a → header = some ⟨w, h, if a then 6 else 2⟩ := by
  induction chunks generalizing known with
  | nil => exact ⟨known.1, by rw [List.filter_nil, List.flatMap_nil, List.append_nil]; rfl,
      fun _ => rfl, fun c w h a hlast => nomatch hlast⟩
  | cons c chunks ih =>
    rw [List.forall_mem_cons] at hheaders
    have ih := ih hheaders.2
    rw [List.foldlM_cons]
    by_cases hheader : c.kind = PngFormat.header
    · -- a header replaces the one before
      obtain ⟨w, h, a, hc⟩ := hheaders.1 hheader
      have hne : ¬ c.kind = imageData := by
        rw [hheader]
        decide
      have habsorb : absorb known c = .ok (some ⟨w, h, if a then 6 else 2⟩, known.2) := by
        rw [absorb, if_pos hheader, parse_of_isHeader hc]
        rfl
      obtain ⟨header, hfold, hnone, hsome⟩ := ih (some ⟨w, h, if a then 6 else 2⟩, known.2)
      rw [habsorb, bind_ok, List.filter_cons_of_neg (by simpa using hne),
        List.filter_cons_of_pos (by simpa using hheader), List.getLast?_cons]
      refine ⟨header, hfold, (fun hlast => nomatch hlast), ?_⟩
      intro d w' h' a' hlast hd
      cases hrest : (chunks.filter fun c => c.kind = PngFormat.header).getLast? with
      | none =>
        rw [hrest] at hlast
        cases hlast
        have hparse := (parse_of_isHeader hc).symm.trans (parse_of_isHeader hd)
        rw [hnone hrest]
        exact congrArg some (Except.ok.inj hparse)
      | some last =>
        rw [hrest] at hlast
        cases hlast
        exact hsome _ w' h' a' hrest hd
    · by_cases himage : c.kind = imageData
      · -- data goes to the end
        have habsorb : absorb known c = .ok (known.1, known.2 ++ c.data) := by
          rw [absorb, if_neg hheader, if_pos himage]
          rfl
        obtain ⟨header, hfold, hrest⟩ := ih (known.1, known.2 ++ c.data)
        rw [habsorb, bind_ok, List.filter_cons_of_pos (by simpa using himage), List.flatMap_cons,
          ← List.append_assoc, List.filter_cons_of_neg (by simpa using hheader)]
        exact ⟨header, hfold, hrest⟩
      · have habsorb : absorb known c = .ok known := by
          rw [absorb, if_neg hheader, if_neg himage]
          rfl
        rw [habsorb, bind_ok, List.filter_cons_of_neg (by simpa using himage),
          List.filter_cons_of_neg (by simpa using hheader)]
        exact ih known

/-- Where the chunks were read, every header was one. -/
theorem isHeader_of_foldlM {chunks : List Chunk} {known result : Option Header × List UInt8}
    (h : chunks.foldlM absorb known = .ok result) :
    ∀ c ∈ chunks, c.kind = PngFormat.header → ∃ w h a, IsHeader c.data w h a := by
  induction chunks generalizing known with
  | nil => exact fun c hc => absurd hc List.not_mem_nil
  | cons c chunks ih =>
    rw [List.foldlM_cons, bind_eq_ok] at h
    obtain ⟨known', habsorb, h⟩ := h
    refine List.forall_mem_cons.mpr ⟨fun hheader => ?_, ih h⟩
    rw [absorb, if_pos hheader, bind_eq_ok] at habsorb
    obtain ⟨header, hparse, -⟩ := habsorb
    obtain ⟨alpha, -, hc⟩ := (parse_spec c.data).of_ok hparse
    exact ⟨_, _, _, hc⟩

theorem take_signature {rest : List UInt8} :
    (signature ++ rest).take 8 = magic ∧ (signature ++ rest).drop 8 = rest := ⟨rfl, rfl⟩

theorem length_of_isFile {chunks : List Chunk} (h : IsFile bytes chunks) : 8 ≤ bytes.length := by
  obtain ⟨-, tail, -, rfl⟩ := h
  rw [List.length_append]
  exact Nat.le_add_right _ _

/-- **The chunks of a file are read.** -/
theorem scan_of_file (hmem : InMemory bytes) {chunks : List Chunk} (h : IsFile bytes chunks) :
    scan bytes = chunks.foldlM absorb (none, []) := by
  have hlen := length_of_isFile h
  obtain ⟨hchunks, tail, hends, hbytes⟩ := h
  refine scanLoop_chunks (none, []) hmem hends hchunks hlen ?_ (by omega)
  rw [hbytes, take_signature.2]

/-- **What was read was a file.** -/
theorem file_of_scan (hmem : InMemory bytes) (hlen : 8 ≤ bytes.length)
    (hmagic : bytes.take 8 = magic) {result : Option Header × List UInt8}
    (h : scan bytes = .ok result) :
    ∃ chunks, IsFile bytes chunks ∧ chunks.foldlM absorb (none, []) = .ok result := by
  obtain ⟨chunks, tail, hends, hchunks, hdrop, hfold⟩ :=
    chunks_of_scanLoop (none, []) hmem hlen h
  refine ⟨chunks, ⟨hchunks, tail, hends, ?_⟩, hfold⟩
  rw [← hdrop, ← List.take_append_drop 8 bytes, hmagic]
  rfl

theorem safe_scan (hmem : InMemory bytes) (hlen : 8 ≤ bytes.length) :
    Safe (scan bytes) (Known bytes.length) :=
  safe_scanLoop (none, []) hmem hlen ⟨(fun _ h => nomatch h), Nat.zero_le _⟩ (by omega)

end AiDaemon.Png
