import AiDaemon.Cbor

/-!
# Data items as bytes

The bytes of a data item: a head, which holds a number in as few bytes as it
needs, and what the head announces.  How a floating-point number is written is a
parameter.

`size` of an item is the length of its bytes.  It is a sum over the parts of the
item, and for a record it is a sum over its fields (`size_record`), as long as it
has no more of them than one byte can count.
-/

namespace AiDaemon.Cbor

variable {D α β : Type}

/-! ### Heads -/

/-- The last `k` bytes of a number, the highest first. -/
def beBytes : Nat → Nat → List UInt8
  | 0, _ => []
  | k + 1, n => beBytes k (n / 256) ++ [.ofNat n]

/-- The head of an item of a major type, with its number. -/
def head (major n : Nat) : List UInt8 :=
  if n < 24 then [.ofNat (32 * major + n)]
  else if n < 2 ^ 8 then .ofNat (32 * major + 24) :: beBytes 1 n
  else if n < 2 ^ 16 then .ofNat (32 * major + 25) :: beBytes 2 n
  else if n < 2 ^ 32 then .ofNat (32 * major + 26) :: beBytes 4 n
  else .ofNat (32 * major + 27) :: beBytes 8 n

def headSize (n : Nat) : Nat :=
  if n < 24 then 1 else if n < 2 ^ 8 then 2 else if n < 2 ^ 16 then 3
  else if n < 2 ^ 32 then 5 else 9

theorem length_beBytes (k n : Nat) : (beBytes k n).length = k := by
  induction k generalizing n with
  | zero => rfl
  | succ k ih => rw [beBytes, List.length_append, ih, List.length_singleton]

theorem length_head (major n : Nat) : (head major n).length = headSize n := by
  unfold head headSize
  split
  · rfl
  · split
    · rw [List.length_cons, length_beBytes]
    · split
      · rw [List.length_cons, length_beBytes]
      · split
        · rw [List.length_cons, length_beBytes]
        · rw [List.length_cons, length_beBytes]

theorem headSize_small {n : Nat} (h : n < 24) : headSize n = 1 := if_pos h

/-! ### Items -/

section Bytes

variable (floatBytes : D → List UInt8)

mutual

def Value.toBytes : Value D → List UInt8
  | .int n => if 0 ≤ n then head 0 n.toNat else head 1 (-n - 1).toNat
  | .bytes data => head 2 data.length ++ data
  | .float x => floatBytes x
  | .text s => head 3 (Text.byteLen s) ++ s.flatMap String.utf8EncodeChar
  | .bool b => [if b then 0xf5 else 0xf4]
  | .null => [0xf6]
  | .tag number item => head 6 number ++ item.toBytes
  | .array items => head 4 items.length ++ itemsToBytes items
  | .map entries => head 5 entries.length ++ entriesToBytes entries

def itemsToBytes : List (Value D) → List UInt8
  | [] => []
  | v :: items => v.toBytes ++ itemsToBytes items

def entriesToBytes : List (Value D × Value D) → List UInt8
  | [] => []
  | (k, v) :: entries => k.toBytes ++ v.toBytes ++ entriesToBytes entries

end

def size (v : Value D) : Nat := (v.toBytes floatBytes).length

def itemsSize (items : List (Value D)) : Nat := (items.map (size floatBytes)).sum

def entriesSize (entries : Entries D) : Nat :=
  (entries.map fun e => size floatBytes e.1 + size floatBytes e.2).sum

/-- A text with its head. -/
def textSize (s : Text) : Nat := headSize (Text.byteLen s) + Text.byteLen s

theorem length_itemsToBytes (items : List (Value D)) :
    (itemsToBytes floatBytes items).length = itemsSize floatBytes items := by
  induction items with
  | nil => rfl
  | cons v items ih =>
    rw [itemsToBytes, List.length_append, ih]
    rfl

theorem length_entriesToBytes (entries : Entries D) :
    (entriesToBytes floatBytes entries).length = entriesSize floatBytes entries := by
  induction entries with
  | nil => rfl
  | cons e entries ih =>
    rw [entriesToBytes, List.length_append, List.length_append, ih]
    rfl

theorem length_utf8 (s : Text) : (s.flatMap String.utf8EncodeChar).length = Text.byteLen s := by
  simp [List.length_flatMap, Text.byteLen]

/-! ### Sizes -/

@[simp] theorem size_text (s : Text) : size floatBytes (.text s) = textSize s := by
  rw [size, Value.toBytes, List.length_append, length_head, length_utf8, textSize]

@[simp] theorem size_bytes (data : List UInt8) :
    size floatBytes (.bytes data) = headSize data.length + data.length := by
  rw [size, Value.toBytes, List.length_append, length_head]

@[simp] theorem size_nat (n : Nat) : size floatBytes (.int n) = headSize n := by
  have hnonneg : (0 : Int) ≤ n := Int.natCast_nonneg n
  rw [size, Value.toBytes, if_pos hnonneg, length_head, Int.toNat_natCast]

@[simp] theorem size_bool (b : Bool) : size floatBytes (.bool b) = 1 := rfl

@[simp] theorem size_array (items : List (Value D)) :
    size floatBytes (.array items) = headSize items.length + itemsSize floatBytes items := by
  rw [size, Value.toBytes, List.length_append, length_head, length_itemsToBytes]

@[simp] theorem size_map (entries : Entries D) :
    size floatBytes (.map entries) =
      headSize entries.length + entriesSize floatBytes entries := by
  rw [size, Value.toBytes, List.length_append, length_head, length_entriesToBytes]

@[simp] theorem entriesSize_nil : entriesSize floatBytes ([] : Entries D) = 0 := rfl

@[simp] theorem entriesSize_cons (k v : Value D) (entries : Entries D) :
    entriesSize floatBytes ((k, v) :: entries) =
      size floatBytes k + size floatBytes v + entriesSize floatBytes entries := rfl

@[simp] theorem entriesSize_append (l k : Entries D) :
    entriesSize floatBytes (l ++ k) = entriesSize floatBytes l + entriesSize floatBytes k := by
  simp [entriesSize]

/-- A list with its head, from the sizes of what is in it. -/
def listSize (f : α → Nat) (l : List α) : Nat := headSize l.length + (l.map f).sum

/-- What an optional entry takes, with its key. -/
def optionSize (name : Text) (f : α → Nat) : Option α → Nat
  | some a => textSize name + f a
  | none => 0

theorem size_list (c : Codec D α) (l : List α) :
    size floatBytes (c.list.enc l) = listSize (fun a => size floatBytes (c.enc a)) l := by
  simp [Codec.list, listSize, itemsSize, Function.comp_def]

theorem size_btreeMap (c : Codec D α) (m : BTreeMap α) :
    size floatBytes ((Codec.btreeMap c).enc m) =
      listSize (fun e => headSize e.1.toNat + size floatBytes (c.enc e.2)) m.entries := by
  have hkey : ∀ k : UInt32, size floatBytes ((Codec.u32 : Codec D UInt32).enc k) =
      headSize k.toNat := fun k => size_nat floatBytes k.toNat
  simp only [Codec.btreeMap, size_map, listSize, entriesSize, List.length_map, List.map_map,
    Function.comp_def, hkey]

/-! ### Records -/

/-- The group writes no more than one entry for each of its names. -/
structure Fields.Single (f : Fields D α) : Prop where
  length_le : ∀ a, (f.put a).length ≤ f.names.length

theorem Fields.single_fieldUnless (name : Text) (c : Codec D α) (skip : α → Bool)
    (missing : Option α) (hskip : ∀ a, skip a = true → missing = some a) :
    (fieldUnless name c skip missing hskip).Single := by
  constructor
  intro a
  show (if skip a then [] else [(Value.text name, c.enc a)]).length ≤ 1
  split
  · exact Nat.zero_le 1
  · exact Nat.le_refl 1

theorem Fields.single_field (name : Text) (c : Codec D α) : (field name c).Single :=
  single_fieldUnless ..

theorem Fields.single_fieldOr (name : Text) (c : Codec D α) (default : α) :
    (fieldOr name c default).Single :=
  single_fieldUnless ..

theorem Fields.single_optional (name : Text) (c : Codec D α) (hsolid : ∀ a, c.enc a ≠ .null) :
    (optional name c hsolid).Single :=
  single_fieldUnless ..

theorem Fields.single_listUnlessEmpty (name : Text) (c : Codec D α) :
    (listUnlessEmpty name c).Single :=
  single_fieldUnless ..

theorem Fields.Single.and {f : Fields D α} {g : Fields D β} (hf : f.Single) (hg : g.Single)
    (hapart : apart f.names g.names = true) : (f.and g hapart).Single := by
  constructor
  intro p
  show (f.put p.1 ++ g.put p.2).length ≤ (f.names ++ g.names).length
  rw [List.length_append, List.length_append]
  exact Nat.add_le_add (hf.length_le p.1) (hg.length_le p.2)

theorem Fields.Single.via {f : Fields D β} (hf : f.Single) (split : α → β) (join : β → α)
    (hjoin : ∀ a, join (split a) = a) : (f.via split join hjoin).Single :=
  ⟨fun a => hf.length_le (split a)⟩

/-- A record that one byte can count is that byte and its fields. -/
theorem size_record {f : Fields D α} (hf : f.Single) {n : Nat} (hn : f.names.length = n)
    (hsmall : n < 24) (a : α) :
    size floatBytes ((Codec.record f).enc a) = 1 + entriesSize floatBytes (f.put a) := by
  have hcount : (f.put a).length < 24 := Nat.lt_of_le_of_lt (hf.length_le a) (hn ▸ hsmall)
  show size floatBytes (.map (f.put a)) = _
  rw [size_map, headSize_small hcount]

/-- So is a variant, with its name. -/
theorem size_tagged {ε : Type} (tag : Text) {v : Text × Variant D ε} (hv : v.2.fields.Single)
    {n : Nat} (hn : v.2.fields.names.length = n) (hsmall : n + 1 < 24) (a : v.2.Payload) :
    size floatBytes (encTagged tag v a) =
      1 + (textSize tag + textSize v.1 + entriesSize floatBytes (v.2.fields.put a)) := by
  have hcount : (v.2.fields.put a).length + 1 < 24 := by
    have := hv.length_le a
    omega
  rw [encTagged, size_map, entriesSize_cons, size_text, size_text, List.length_cons,
    headSize_small hcount]

theorem entriesSize_fieldUnless (name : Text) (c : Codec D α) (skip : α → Bool)
    (missing : Option α) (hskip : ∀ a, skip a = true → missing = some a) (a : α) :
    entriesSize floatBytes ((Fields.fieldUnless name c skip missing hskip).put a) =
      if skip a then 0 else textSize name + size floatBytes (c.enc a) := by
  show entriesSize floatBytes (if skip a then [] else [(.text name, c.enc a)]) = _
  split
  · rfl
  · simp

theorem entriesSize_field (name : Text) (c : Codec D α) (a : α) :
    entriesSize floatBytes ((Fields.field name c).put a) =
      textSize name + size floatBytes (c.enc a) :=
  entriesSize_fieldUnless ..

theorem entriesSize_fieldOr (name : Text) (c : Codec D α) (default a : α) :
    entriesSize floatBytes ((Fields.fieldOr name c default).put a) =
      textSize name + size floatBytes (c.enc a) :=
  entriesSize_fieldUnless ..

theorem entriesSize_optional (name : Text) (c : Codec D α) (hsolid : ∀ a, c.enc a ≠ .null)
    (a : Option α) :
    entriesSize floatBytes ((Fields.optional name c hsolid).put a) =
      optionSize name (fun a => size floatBytes (c.enc a)) a := by
  cases a with
  | none => rfl
  | some a => exact entriesSize_fieldUnless ..

theorem entriesSize_listUnlessEmpty (name : Text) (c : Codec D α) (l : List α) :
    entriesSize floatBytes ((Fields.listUnlessEmpty name c).put l) =
      if l = [] then 0 else textSize name + listSize (fun a => size floatBytes (c.enc a)) l := by
  refine (entriesSize_fieldUnless ..).trans ?_
  simp only [List.isEmpty_iff, size_list]

end Bytes

end AiDaemon.Cbor
