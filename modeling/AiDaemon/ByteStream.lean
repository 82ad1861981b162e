import Mathlib.Data.List.Basic
import Mathlib.Tactic.Common

/-!
# Byte streams

A reader hands out the bytes of a stream in pieces of its own choosing: each
read may be interrupted, or return fewer bytes than were asked for, but at least
one while there are any.  A `Source` is the bytes that are left together with
the answers the reader will give; when its script is used up it returns as much
as is asked for.

`fill` is the loop that reads until a buffer is full or the stream ends.  What
it reads does not depend on the script (`fill_bytes`, `fill_rest`).  `chunks`
cuts a list into pieces of one size, the last possibly shorter.
-/

namespace AiDaemon.ByteStream

/-! ### Reading -/

/-- One read: an interruption, or at most `extra + 1` bytes. -/
inductive Answer where
  | interrupted
  | upTo (extra : Nat)
deriving DecidableEq, Repr

structure Source where
  bytes : List UInt8
  script : List Answer
deriving DecidableEq, Repr

namespace Source

/-- One read into a buffer of `want` bytes; `none` is an interruption. -/
def read (src : Source) (want : Nat) : Option (List UInt8) × Source :=
  match src.script with
  | .interrupted :: script => (none, ⟨src.bytes, script⟩)
  | .upTo extra :: script =>
    (some (src.bytes.take (min (extra + 1) want)), ⟨src.bytes.drop (min (extra + 1) want), script⟩)
  | [] => (some (src.bytes.take want), ⟨src.bytes.drop want, []⟩)

theorem read_interrupted {src next : Source} {want : Nat} (h : src.read want = (none, next)) :
    next.bytes = src.bytes ∧ next.script.length < src.script.length := by
  unfold read at h
  split at h
  · rename_i script hscript
    obtain rfl := (Prod.mk.inj h).2
    simp [hscript]
  · simp at h
  · simp at h

theorem read_some {src next : Source} {want : Nat} {chunk : List UInt8} (hwant : 0 < want)
    (h : src.read want = (some chunk, next)) :
    (∃ n, 0 < n ∧ n ≤ want ∧ chunk = src.bytes.take n ∧ next.bytes = src.bytes.drop n) ∧
      next.script.length ≤ src.script.length := by
  unfold read at h
  split at h
  · simp at h
  · rename_i extra script hscript
    simp only [Prod.mk.injEq, Option.some.injEq] at h
    obtain ⟨rfl, rfl⟩ := h
    refine ⟨⟨min (extra + 1) want, by omega, by omega, rfl, rfl⟩, ?_⟩
    simp [hscript]
  · rename_i hscript
    simp only [Prod.mk.injEq, Option.some.injEq] at h
    obtain ⟨rfl, rfl⟩ := h
    exact ⟨⟨want, hwant, Nat.le_refl _, rfl, rfl⟩, by simp [hscript]⟩

/-- Read until the buffer is full or a read returns nothing. -/
def fill (src : Source) (want : Nat) : List UInt8 × Source :=
  if _ : want = 0 then ([], src)
  else
    match _hread : src.read want with
    | (none, next) => next.fill want
    | (some [], next) => ([], next)
    | (some (b :: bs), next) =>
      let more := next.fill (want - (b :: bs).length)
      (b :: bs ++ more.1, more.2)
termination_by src.script.length + want
decreasing_by
  · have hshorter := (read_interrupted _hread).2
    omega
  · have hscript := (read_some (by omega) _hread).2
    simp only [List.length_cons]
    omega

theorem fill_zero (src : Source) : src.fill 0 = ([], src) := by
  rw [fill, dif_pos rfl]

theorem fill_interrupted {src next : Source} {want : Nat} (hwant : 0 < want)
    (hread : src.read want = (none, next)) : src.fill want = next.fill want := by
  rw [fill, dif_neg (by omega)]
  split <;> simp_all

theorem fill_end {src next : Source} {want : Nat} (hwant : 0 < want)
    (hread : src.read want = (some [], next)) : src.fill want = ([], next) := by
  rw [fill, dif_neg (by omega)]
  split <;> simp_all

theorem fill_more {src next : Source} {want : Nat} {chunk : List UInt8} (hwant : 0 < want)
    (hread : src.read want = (some chunk, next)) (hchunk : chunk ≠ []) :
    src.fill want = (chunk ++ (next.fill (want - chunk.length)).1,
      (next.fill (want - chunk.length)).2) := by
  rw [fill, dif_neg (by omega)]
  split <;> simp_all

/-- Whatever the script, the loop takes the next `want` bytes, or what is left. -/
theorem fill_spec (src : Source) (want : Nat) :
    (src.fill want).1 = src.bytes.take want ∧ (src.fill want).2.bytes = src.bytes.drop want := by
  induction hmeasure : src.script.length + want using Nat.strongRecOn
    generalizing src want with
  | _ measure ih =>
    rcases Nat.eq_zero_or_pos want with rfl | hwant
    · simp [fill_zero]
    · rcases hread : src.read want with ⟨_ | chunk, next⟩
      · obtain ⟨hbytes, hshorter⟩ := read_interrupted hread
        rw [fill_interrupted hwant hread, ← hbytes]
        exact ih _ (by omega) next want rfl
      · obtain ⟨⟨n, hpos, hle, hchunk, hrest⟩, hscript⟩ := read_some hwant hread
        by_cases hnil : chunk = []
        · -- an empty read into a buffer that is not full is the end of the stream
          have hempty : src.bytes = [] := by
            rw [hnil] at hchunk
            rcases List.take_eq_nil_iff.mp hchunk.symm with h | h
            · omega
            · exact h
          rw [hnil] at hread
          rw [fill_end hwant hread]
          simp [hempty, hrest]
        · have hlength : 0 < chunk.length := List.length_pos_iff.mpr hnil
          have hmin : chunk.length = min n src.bytes.length := by
            rw [hchunk, List.length_take]
          obtain ⟨hmore, hlast⟩ := ih _ (by omega) next (want - chunk.length) rfl
          have htake : chunk = src.bytes.take chunk.length := by
            rw [hmin, hchunk]
            simp
          have hdrop : next.bytes = src.bytes.drop chunk.length := by
            rw [hrest, hmin]
            rcases Nat.le_total n src.bytes.length with h | h
            · rw [Nat.min_eq_left h]
            · rw [Nat.min_eq_right h, List.drop_length, List.drop_eq_nil_of_le h]
          rw [fill_more hwant hread hnil]
          constructor
          · rw [hmore, hdrop]
            calc chunk ++ (src.bytes.drop chunk.length).take (want - chunk.length)
                = src.bytes.take chunk.length ++
                    (src.bytes.drop chunk.length).take (want - chunk.length) := by rw [← htake]
              _ = src.bytes.take (chunk.length + (want - chunk.length)) := List.take_add.symm
              _ = src.bytes.take want := by rw [Nat.add_sub_cancel' (by omega)]
          · rw [hlast, hdrop, List.drop_drop, Nat.add_sub_cancel' (by omega)]

theorem fill_bytes (src : Source) (want : Nat) : (src.fill want).1 = src.bytes.take want :=
  (fill_spec src want).1

theorem fill_rest (src : Source) (want : Nat) : (src.fill want).2.bytes = src.bytes.drop want :=
  (fill_spec src want).2

end Source

/-! ### Chunks -/

section Chunks

variable {α : Type}

/-- Consecutive pieces of `size` elements, the last possibly shorter. -/
def chunks (size : Nat) (hsize : 0 < size) (l : List α) : List (List α) :=
  if _h : l = [] then []
  else l.take size :: chunks size hsize (l.drop size)
termination_by l.length
decreasing_by
  have hlength : 0 < l.length := List.length_pos_iff.mpr _h
  rw [List.length_drop]
  omega

theorem flatten_chunks (size : Nat) (hsize : 0 < size) (l : List α) :
    (chunks size hsize l).flatten = l := by
  induction l using chunks.induct size hsize with
  | case1 => rw [chunks, dif_pos rfl, List.flatten_nil]
  | case2 l h ih => rw [chunks, dif_neg h, List.flatten_cons, ih, List.take_append_drop]

theorem mem_chunks (size : Nat) (hsize : 0 < size) (l : List α) :
    ∀ chunk ∈ chunks size hsize l, chunk ≠ [] ∧ chunk.length ≤ size := by
  induction l using chunks.induct size hsize with
  | case1 =>
    intro chunk hchunk
    rw [chunks, dif_pos rfl] at hchunk
    simp at hchunk
  | case2 l h ih =>
    intro chunk hchunk
    rw [chunks, dif_neg h, List.mem_cons] at hchunk
    rcases hchunk with rfl | hchunk
    · refine ⟨?_, List.length_take_le size l⟩
      rw [ne_eq, List.take_eq_nil_iff, not_or]
      exact ⟨by omega, h⟩
    · exact ih chunk hchunk

end Chunks

/-! ### Cutting a concatenation -/

section Cut

variable {α β : Type}

/-- Where the first `j` pieces of a concatenation end. -/
def boundary (f : α → List β) (l : List α) (j : Nat) : Nat := ((l.take j).flatMap f).length

theorem boundary_mono (f : α → List β) (l : List α) {i j : Nat} (h : i ≤ j) :
    boundary f l i ≤ boundary f l j := by
  have hsplit : l.take j = l.take i ++ (l.drop i).take (j - i) := by
    rw [← List.take_add, Nat.add_sub_cancel' h]
  rw [boundary, boundary, hsplit, List.flatMap_append, List.length_append]
  exact Nat.le_add_right _ _

/-- A cut falls between two pieces or inside one. -/
theorem cut_flatMap (f : α → List β) (l : List α) {k : Nat} (hk : k ≤ (l.flatMap f).length) :
    (∃ j, k = boundary f l j) ∨
      ∃ j a n, l[j]? = some a ∧ 0 < n ∧ n < (f a).length ∧ k = boundary f l j + n := by
  induction l generalizing k with
  | nil =>
    left
    refine ⟨0, ?_⟩
    simpa [boundary] using hk
  | cons a l ih =>
    have hshift : ∀ j, boundary f (a :: l) (j + 1) = (f a).length + boundary f l j := by
      intro j
      simp [boundary]
    rcases Nat.eq_zero_or_pos k with rfl | hpos
    · exact Or.inl ⟨0, by simp [boundary]⟩
    · by_cases hinside : k < (f a).length
      · exact Or.inr ⟨0, a, k, rfl, hpos, hinside, by simp [boundary]⟩
      · rw [List.flatMap_cons, List.length_append] at hk
        rcases ih (k := k - (f a).length) (by omega) with ⟨j, hj⟩ | ⟨j, b, n, hb, hn, hlt, hj⟩
        · refine Or.inl ⟨j + 1, ?_⟩
          rw [hshift]
          omega
        · refine Or.inr ⟨j + 1, b, n, by simpa using hb, hn, hlt, ?_⟩
          rw [hshift]
          omega

/-- The part of a concatenation up to a cut between two pieces. -/
theorem take_boundary (f : α → List β) (l : List α) (j : Nat) :
    (l.flatMap f).take (boundary f l j) = (l.take j).flatMap f := by
  have hsplit : l.flatMap f = (l.take j).flatMap f ++ (l.drop j).flatMap f := by
    rw [← List.flatMap_append, List.take_append_drop]
  rw [hsplit, boundary, List.take_left]

/-- The part of a concatenation up to a cut inside a piece. -/
theorem take_flatMap (f : α → List β) {l : List α} {j : Nat} {a : α} (ha : l[j]? = some a) (n : Nat)
    (hn : n ≤ (f a).length) :
    (l.flatMap f).take (boundary f l j + n) = (l.take j).flatMap f ++ (f a).take n := by
  have hsplit : l.flatMap f = (l.take j).flatMap f ++ (f a ++ (l.drop (j + 1)).flatMap f) := by
    obtain ⟨hlt, hget⟩ := List.getElem?_eq_some_iff.mp ha
    rw [← List.flatMap_cons, ← List.flatMap_append, ← hget, List.getElem_cons_drop,
      List.take_append_drop]
  rw [hsplit, boundary, List.take_length_add_append, List.take_append_of_le_length hn]

end Cut

end AiDaemon.ByteStream
