import AiDaemon.ByteStream

/-!
# Buffered readers

A reader over a byte stream that asks for as much as its buffer holds and hands out
of the buffer.  It reads up to a byte, which a line does, or a number of bytes.

What it hands out depends neither on the buffer nor on the pieces in which the stream
gives its bytes (`readUntil_spec`, `take_spec`): only on the bytes that are left.
-/

namespace AiDaemon.ByteStream

/-! ### Up to a byte -/

/-- The bytes up to the first `stop`, with it, and those behind. -/
def untilByte (stop : UInt8) : List UInt8 → List UInt8 × List UInt8
  | [] => ([], [])
  | b :: bs =>
    if b = stop then ([b], bs)
    else (b :: (untilByte stop bs).1, (untilByte stop bs).2)

theorem untilByte_append {stop : UInt8} {before : List UInt8} (h : stop ∉ before)
    (rest : List UInt8) : untilByte stop (before ++ stop :: rest) = (before ++ [stop], rest) := by
  induction before with
  | nil => simp [untilByte]
  | cons b before ih =>
    rw [List.mem_cons, not_or] at h
    rw [List.cons_append, untilByte, if_neg fun heq => h.1 heq.symm, ih h.2]
    rfl

/-- Behind bytes without the stop the search goes on. -/
theorem untilByte_behind {stop : UInt8} {before : List UInt8} (h : stop ∉ before)
    (rest : List UInt8) : untilByte stop (before ++ rest) =
      (before ++ (untilByte stop rest).1, (untilByte stop rest).2) := by
  induction before with
  | nil => rfl
  | cons b before ih =>
    rw [List.mem_cons, not_or] at h
    rw [List.cons_append, untilByte, if_neg fun heq => h.1 heq.symm, ih h.2]
    rfl

/-- The stop of a buffer that has one is found in the buffer. -/
theorem untilByte_inside {stop : UInt8} {buffer : List UInt8} (h : stop ∈ buffer)
    (rest : List UInt8) :
    untilByte stop (buffer ++ rest) =
      ((untilByte stop buffer).1, (untilByte stop buffer).2 ++ rest) := by
  obtain ⟨before, after, rfl, hfree⟩ := List.eq_append_cons_of_mem h
  rw [List.append_assoc, List.cons_append, untilByte_append hfree, untilByte_append hfree]

/-! ### The reader -/

structure BufReader where
  buffer : List UInt8
  source : Source
deriving DecidableEq, Repr

namespace BufReader

/-- What has not been handed out. -/
def bytes (r : BufReader) : List UInt8 := r.buffer ++ r.source.bytes

/-- Hands out up to the first `stop`, or up to the end of the stream. The buffer holds
    `room + 1` bytes, and an interrupted read is made again. -/
def readUntil (room : Nat) (stop : UInt8) (r : BufReader) : List UInt8 × BufReader :=
  if _hempty : r.buffer = [] then
    match _hread : r.source.read (room + 1) with
    | (none, next) => readUntil room stop ⟨[], next⟩
    | (some [], next) => ([], ⟨[], next⟩)
    | (some (b :: bs), next) => readUntil room stop ⟨b :: bs, next⟩
  else if stop ∈ r.buffer then
    ((untilByte stop r.buffer).1, ⟨(untilByte stop r.buffer).2, r.source⟩)
  else
    let more := readUntil room stop ⟨[], r.source⟩
    (r.buffer ++ more.1, more.2)
termination_by 2 * (r.source.script.length + r.source.bytes.length) + r.buffer.length
decreasing_by
  · obtain ⟨hbytes, hshorter⟩ := Source.read_interrupted _hread
    rw [hbytes, List.length_nil]
    omega
  · obtain ⟨⟨n, -, -, hchunk, hrest⟩, hscript⟩ := Source.read_some (Nat.succ_pos room) _hread
    have hlength : (b :: bs).length + next.bytes.length = r.source.bytes.length := by
      rw [hchunk, hrest, ← List.length_append, List.take_append_drop]
    rw [List.length_cons] at hlength ⊢
    omega
  · have hpos : 0 < r.buffer.length := List.length_pos_iff.mpr _hempty
    rw [List.length_nil]
    omega

/-- Hands out the next `want` bytes, or what there is of them. -/
def take (want : Nat) (r : BufReader) : List UInt8 × BufReader :=
  let more := r.source.fill (want - r.buffer.length)
  (r.buffer.take want ++ more.1, ⟨r.buffer.drop want, more.2⟩)

/-! ### What it hands out -/

variable (room : Nat) (stop : UInt8)

theorem readUntil_buffered {r : BufReader} (h : stop ∈ r.buffer) :
    r.readUntil room stop =
      ((untilByte stop r.buffer).1, ⟨(untilByte stop r.buffer).2, r.source⟩) := by
  rw [readUntil, dif_neg (List.ne_nil_of_mem h), if_pos h]

theorem readUntil_spent {r : BufReader} (hne : r.buffer ≠ []) (h : stop ∉ r.buffer) :
    r.readUntil room stop =
      (r.buffer ++ (readUntil room stop ⟨[], r.source⟩).1,
        (readUntil room stop ⟨[], r.source⟩).2) := by
  rw [readUntil, dif_neg hne, if_neg h]

theorem readUntil_interrupted {src next : Source} (h : src.read (room + 1) = (none, next)) :
    readUntil room stop ⟨[], src⟩ = readUntil room stop ⟨[], next⟩ := by
  rw [readUntil, dif_pos rfl]
  split <;> simp_all

theorem readUntil_end {src next : Source} (h : src.read (room + 1) = (some [], next)) :
    readUntil room stop ⟨[], src⟩ = ([], ⟨[], next⟩) := by
  rw [readUntil, dif_pos rfl]
  split <;> simp_all

theorem readUntil_filled {src next : Source} {chunk : List UInt8} (hne : chunk ≠ [])
    (h : src.read (room + 1) = (some chunk, next)) :
    readUntil room stop ⟨[], src⟩ = readUntil room stop ⟨chunk, next⟩ := by
  rw [readUntil, dif_pos rfl]
  split <;> simp_all

/-- The bytes up to the first stop, and those behind them. -/
theorem readUntil_spec (r : BufReader) :
    (r.readUntil room stop).1 = (untilByte stop r.bytes).1 ∧
      (r.readUntil room stop).2.bytes = (untilByte stop r.bytes).2 := by
  induction hmeasure : 2 * (r.source.script.length + r.source.bytes.length) + r.buffer.length
    using Nat.strongRecOn generalizing r with
  | _ measure ih =>
    obtain ⟨buffer, src⟩ := r
    by_cases hempty : buffer = []
    · subst hempty
      rcases hread : src.read (room + 1) with ⟨_ | chunk, next⟩
      · obtain ⟨hbytes, hshorter⟩ := Source.read_interrupted hread
        rw [readUntil_interrupted room stop hread]
        have hsame : (BufReader.mk [] src).bytes = (BufReader.mk [] next).bytes := by
          rw [bytes, bytes, hbytes]
        rw [hsame]
        refine ih _ ?_ ⟨[], next⟩ rfl
        dsimp only at hmeasure ⊢
        rw [hbytes]
        omega
      · obtain ⟨⟨n, hpos, -, hchunk, hrest⟩, hscript⟩ :=
          Source.read_some (Nat.succ_pos room) hread
        by_cases hnil : chunk = []
        · -- nothing was read, so there is nothing
          rw [hnil] at hread hchunk
          have hnone : src.bytes = [] := by
            rcases List.take_eq_nil_iff.mp hchunk.symm with h | h
            · omega
            · exact h
          rw [readUntil_end room stop hread]
          simp [bytes, hnone, hrest, untilByte]
        · rw [readUntil_filled room stop hnil hread]
          have hsame : (BufReader.mk [] src).bytes = (BufReader.mk chunk next).bytes := by
            rw [bytes, bytes, hchunk, hrest, List.take_append_drop, List.nil_append]
          have hlength : chunk.length + next.bytes.length = src.bytes.length := by
            rw [hchunk, hrest, ← List.length_append, List.take_append_drop]
          have hlong : 0 < chunk.length := List.length_pos_iff.mpr hnil
          rw [hsame]
          refine ih _ ?_ ⟨chunk, next⟩ rfl
          dsimp only at hmeasure ⊢
          rw [List.length_nil] at hmeasure
          omega
    · by_cases hfound : stop ∈ buffer
      · rw [readUntil_buffered room stop hfound, bytes, untilByte_inside hfound]
        exact ⟨rfl, rfl⟩
      · have hpos : 0 < buffer.length := List.length_pos_iff.mpr hempty
        obtain ⟨hline, hrest⟩ := ih _ (by dsimp only at hmeasure ⊢; rw [List.length_nil]; omega)
          ⟨[], src⟩ rfl
        rw [readUntil_spent room stop hempty hfound, bytes, untilByte_behind hfound]
        exact ⟨congrArg _ hline, hrest⟩

theorem take_spec (want : Nat) (r : BufReader) :
    (r.take want).1 = r.bytes.take want ∧ (r.take want).2.bytes = r.bytes.drop want := by
  simp only [take, bytes, Source.fill_bytes, Source.fill_rest, List.take_append, List.drop_append,
    and_self]

/-- A line that was handed out took bytes. -/
theorem readUntil_shrinks {r : BufReader} (h : (r.readUntil room stop).1 ≠ []) :
    (r.readUntil room stop).2.bytes.length < r.bytes.length := by
  obtain ⟨hline, hrest⟩ := readUntil_spec room stop r
  have hlength : ∀ bytes : List UInt8,
      (untilByte stop bytes).1.length + (untilByte stop bytes).2.length = bytes.length := by
    intro bytes
    induction bytes with
    | nil => rfl
    | cons b bytes ih =>
      rw [untilByte]
      split
      · simp [Nat.add_comm]
      · simp only [List.length_cons]
        omega
  have hpos := List.length_pos_iff.mpr h
  rw [hline] at hpos
  rw [hrest, ← hlength r.bytes]
  omega

end BufReader

end AiDaemon.ByteStream
