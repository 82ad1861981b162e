import Mathlib.Data.List.TakeWhile
import Mathlib.Tactic.Ring

/-!
# The native format of a journal

An entry is fields one after another.  A field is either a line with a name, an
equals sign and a value, or a name on a line of its own, the length of the value
in eight bytes, the value and a line feed.  `parse` reads an entry, and
`parse_sized` says that fields in the second form are read back as they are,
whatever bytes their values hold.
-/

namespace AiDaemon.JournalFormat

abbrev Bytes := List UInt8

/-! ### Numbers in bytes -/

/-- The low bytes of a number, the lowest first. -/
def toLe : Nat → Nat → Bytes
  | 0, _ => []
  | count + 1, n => UInt8.ofNat n :: toLe count (n / 256)

def ofLe : Bytes → Nat
  | [] => 0
  | byte :: bytes => byte.toNat + 256 * ofLe bytes

@[simp] theorem length_toLe (count n : Nat) : (toLe count n).length = count := by
  induction count generalizing n with
  | zero => rfl
  | succ count ih => rw [toLe, List.length_cons, ih]

theorem ofLe_toLe {count n : Nat} (h : n < 256 ^ count) : ofLe (toLe count n) = n := by
  induction count generalizing n with
  | zero =>
    rw [pow_zero, Nat.lt_one_iff] at h
    rw [h]
    rfl
  | succ count ih =>
    have hrest : n / 256 < 256 ^ count := by
      apply Nat.div_lt_of_lt_mul
      rwa [pow_succ'] at h
    rw [toLe, ofLe, ih hrest, UInt8.toNat_ofNat']
    exact Nat.mod_add_div n 256

/-! ### Reading -/

def newline : UInt8 := 10

def equals : UInt8 := 61

structure Field where
  name : Bytes
  value : Bytes
deriving DecidableEq

/-- The first line, without its line feed, and what follows. -/
def cutLine (bytes : Bytes) : Option (Bytes × Bytes) :=
  match bytes.dropWhile (· ≠ newline) with
  | [] => none
  | _ :: rest => some (bytes.takeWhile (· ≠ newline), rest)

/-- A value behind its length, and what follows the line feed behind it. -/
def cutSized (bytes : Bytes) : Option (Bytes × Bytes) :=
  if bytes.length < 8 then none
  else
    match (bytes.drop 8).drop (ofLe (bytes.take 8)) with
    | [] => none
    | byte :: rest =>
      if byte = newline then some ((bytes.drop 8).take (ofLe (bytes.take 8)), rest) else none

/-- A name with an equals sign has its value on the line. -/
def readField (bytes : Bytes) : Option (Field × Bytes) :=
  match cutLine bytes with
  | none => none
  | some (line, rest) =>
    if equals ∈ line then
      some (⟨line.takeWhile (· ≠ equals), (line.dropWhile (· ≠ equals)).tail⟩, rest)
    else (cutSized rest).map fun (value, rest) => (⟨line, value⟩, rest)

theorem cutLine_length {bytes line rest : Bytes} (h : cutLine bytes = some (line, rest)) :
    rest.length < bytes.length := by
  unfold cutLine at h
  split at h
  · cases h
  · rename_i byte rest' hdrop
    cases h
    have hle := (List.dropWhile_suffix (l := bytes) (· ≠ newline)).length_le
    rw [hdrop, List.length_cons] at hle
    omega

theorem cutSized_length {bytes value rest : Bytes} (h : cutSized bytes = some (value, rest)) :
    rest.length < bytes.length := by
  unfold cutSized at h
  split at h
  · cases h
  · split at h
    · cases h
    · rename_i byte rest' hdrop
      split at h
      · cases h
        have hlength := congrArg List.length hdrop
        rw [List.length_drop, List.length_drop, List.length_cons] at hlength
        omega
      · cases h

theorem readField_length {bytes rest : Bytes} {field : Field}
    (h : readField bytes = some (field, rest)) : rest.length < bytes.length := by
  unfold readField at h
  split at h
  · cases h
  · rename_i line rest' hline
    have hless := cutLine_length hline
    split at h
    · cases h
      exact hless
    · rw [Option.map_eq_some_iff] at h
      obtain ⟨⟨value, rest''⟩, hsized, heq⟩ := h
      cases heq
      exact (cutSized_length hsized).trans hless

/-- The fields of an entry, to its last byte. -/
def parse (bytes : Bytes) : Option (List Field) :=
  if bytes = [] then some []
  else
    match h : readField bytes with
    | none => none
    | some (field, rest) =>
      have := readField_length h
      (parse rest).map (field :: ·)
termination_by bytes.length

/-! ### Writing -/

/-- The form with the length of the value. -/
def Field.sized (field : Field) : Bytes :=
  field.name ++ newline :: (toLe 8 field.value.length ++ (field.value ++ [newline]))

/-- The name is one, and the length fits. -/
structure Field.Sendable (field : Field) : Prop where
  line : newline ∉ field.name
  plain : equals ∉ field.name
  length : field.value.length < 256 ^ 8

theorem cutLine_append {line : Bytes} (h : newline ∉ line) (rest : Bytes) :
    cutLine (line ++ newline :: rest) = some (line, rest) := by
  have hline : ∀ byte ∈ line, (decide (byte ≠ newline)) = true := by
    intro byte hbyte
    rw [decide_eq_true_eq]
    rintro rfl
    exact h hbyte
  rw [cutLine, List.dropWhile_append_of_pos hline, List.takeWhile_append_of_pos hline]
  simp

theorem cutSized_append {value : Bytes} (h : value.length < 256 ^ 8) (rest : Bytes) :
    cutSized (toLe 8 value.length ++ (value ++ newline :: rest)) = some (value, rest) := by
  have htake : (toLe 8 value.length ++ (value ++ newline :: rest)).take 8 = toLe 8 value.length :=
    List.take_left' (length_toLe 8 _)
  have hdrop : (toLe 8 value.length ++ (value ++ newline :: rest)).drop 8 =
      value ++ newline :: rest := List.drop_left' (length_toLe 8 _)
  have hlength : ¬ (toLe 8 value.length ++ (value ++ newline :: rest)).length < 8 := by
    rw [List.length_append, length_toLe]
    omega
  rw [cutSized, if_neg hlength, htake, hdrop, ofLe_toLe h, List.drop_left, List.take_left]
  exact if_pos rfl

theorem readField_sized {field : Field} (h : field.Sendable) (rest : Bytes) :
    readField (field.sized ++ rest) = some (field, rest) := by
  have hcut := cutSized_append h.length rest
  rw [Field.sized, List.append_assoc, List.cons_append, List.append_assoc, List.append_assoc,
    List.singleton_append, readField, cutLine_append h.line]
  dsimp only
  rw [if_neg h.plain, hcut]
  rfl

/-- One field in front of others. -/
theorem parse_cons {field : Field} (h : field.Sendable) (rest : Bytes) :
    parse (field.sized ++ rest) = (parse rest).map (field :: ·) := by
  have hne : field.sized ++ rest ≠ [] := by
    intro hnil
    have hread := readField_sized h rest
    rw [hnil] at hread
    cases hread
  rw [parse, if_neg hne]
  split
  · rename_i hnone
    cases hnone.symm.trans (readField_sized h rest)
  · rename_i field' rest' hsome
    cases hsome.symm.trans (readField_sized h rest)
    rfl

/-- **Fields with their lengths are read back as they are.** -/
theorem parse_sized {fields : List Field} (h : ∀ field ∈ fields, field.Sendable) :
    parse (fields.flatMap Field.sized) = some fields := by
  induction fields with
  | nil =>
    rw [List.flatMap_nil, parse]
    rfl
  | cons field fields ih =>
    rw [List.forall_mem_cons] at h
    rw [List.flatMap_cons, parse_cons h.1, ih h.2, Option.map_some]

end AiDaemon.JournalFormat
