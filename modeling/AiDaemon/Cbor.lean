import AiDaemon.Text
import Mathlib.Data.List.Basic
import Mathlib.Tactic.Common

/-!
# Typed values as CBOR maps

How derived serialisation lays a typed value out as a CBOR data item and reads
it back.  A `Codec` is an encoder and a decoder with the proof that the second
undoes the first; the combinators below build codecs for integers, texts, lists,
optional values and sorted maps from codecs for their parts.

A record is a CBOR map under text keys.  `Fields` describes a group of its
fields: what they write, how they are read out of a map that may hold other
entries too, and which keys cannot be missing.  A field that is written always
or skipped when it equals its default is one combinator, `fieldUnless`; two
groups under disjoint keys combine with `Fields.and`.

An enum whose variants are tagged puts the variant's name under one more key
(`encTagged`), and reading dispatches on it.  An untagged enum tries its
variants in turn, so a variant is safe from an earlier one when the earlier one
needs a key that the later one never writes (`Fields.refuses`).
-/

namespace AiDaemon.Cbor

/-- A data item. `D` is the type of its floating-point numbers. -/
inductive Value (D : Type) where
  | int (n : Int)
  | bytes (data : List UInt8)
  | float (x : D)
  | text (s : Text)
  | bool (b : Bool)
  | null
  | tag (number : Nat) (item : Value D)
  | array (items : List (Value D))
  | map (entries : List (Value D × Value D))

/-- The entries of a map, as they stand on the wire. -/
abbrev Entries (D : Type) := List (Value D × Value D)

/-- An encoder and the decoder that undoes it. -/
structure Codec (D α : Type) where
  enc : α → Value D
  dec : Value D → Option α
  reads : ∀ a, dec (enc a) = some a

variable {D α β : Type}

/-! ### Plain values -/

namespace Codec

def text : Codec D Text where
  enc := .text
  dec
    | .text s => some s
    | _ => none
  reads := fun _ => rfl

def bool : Codec D Bool where
  enc := .bool
  dec
    | .bool b => some b
    | _ => none
  reads := fun _ => rfl

/-- A value that is an integer within bounds. -/
def intBelow (bound : Nat) (toNat : α → Nat) (ofNat : Nat → α) (hbound : ∀ a, toNat a < bound)
    (hback : ∀ a, ofNat (toNat a) = a) : Codec D α where
  enc a := .int (toNat a)
  dec
    | .int n => if 0 ≤ n ∧ n < bound then some (ofNat n.toNat) else none
    | _ => none
  reads := by
    intro a
    have hlt := hbound a
    have hrange : (0 : Int) ≤ toNat a ∧ (toNat a : Int) < bound := by omega
    simp only [hrange, and_self, if_true, Int.toNat_natCast, hback]

def u32 : Codec D UInt32 :=
  intBelow (2 ^ 32) UInt32.toNat UInt32.ofNat UInt32.toNat_lt fun _ => UInt32.ofNat_toNat

def u64 : Codec D UInt64 :=
  intBelow (2 ^ 64) UInt64.toNat UInt64.ofNat UInt64.toNat_lt fun _ => UInt64.ofNat_toNat

/-- A byte, where one is written as an integer of an array. -/
def byteOf : Value D → Option UInt8
  | .int n => if 0 ≤ n ∧ n < 256 then some (.ofNat n.toNat) else none
  | _ => none

/-- Bytes are written as a byte string; an array of integers is read too. -/
def bytes : Codec D (List UInt8) where
  enc := .bytes
  dec
    | .bytes data => some data
    | .array items => items.mapM byteOf
    | _ => none
  reads := fun _ => rfl

/-- A number that is widened to be written and narrowed when it is read. -/
def float (widen : α → D) (narrow : D → α) (hback : ∀ x, narrow (widen x) = x) : Codec D α where
  enc x := .float (widen x)
  dec
    | .float x => some (narrow x)
    | _ => none
  reads := fun x => by simp only [hback]

def list (c : Codec D α) : Codec D (List α) where
  enc l := .array (l.map c.enc)
  dec
    | .array items => items.mapM c.dec
    | _ => none
  reads := by
    intro l
    induction l with
    | nil => rfl
    | cons a l ih =>
      simp only [List.map_cons, List.mapM_cons, c.reads] at ih ⊢
      rw [ih]
      rfl

/-- `None` is null and `Some` is what it holds, so that must not be null. -/
def option (c : Codec D α) (hsolid : ∀ a, c.enc a ≠ .null) : Codec D (Option α) where
  enc
    | some a => c.enc a
    | none => .null
  dec
    | .null => some none
    | v => (c.dec v).map some
  reads := by
    intro a
    cases a with
    | none => rfl
    | some a =>
      have hnull := hsolid a
      have hread := c.reads a
      dsimp only
      split
      · rename_i heq
        exact absurd heq hnull
      · rw [hread]
        rfl

/-- An enum without fields, written as the name of its variant. -/
def named (name : α → Text) (all : List α)
    (hback : ∀ a, all.find? (fun b => name b = name a) = some a) : Codec D α where
  enc a := .text (name a)
  dec
    | .text s => all.find? fun a => name a = s
    | _ => none
  reads := hback

end Codec

/-! ### Sorted maps -/

/-- A map kept in ascending order of its keys. -/
structure BTreeMap (V : Type) where
  entries : List (UInt32 × V)
  sorted : entries.Pairwise fun a b => a.1 < b.1

namespace BTreeMap

variable {V : Type}

def empty : BTreeMap V := ⟨[], .nil⟩

theorem ext {m n : BTreeMap V} (h : m.entries = n.entries) : m = n := by
  obtain ⟨entries, sorted⟩ := m
  obtain ⟨entries', sorted'⟩ := n
  subst h
  rfl

/-- Insertion replaces what is there under the same key. -/
def insertEntry (k : UInt32) (v : V) : List (UInt32 × V) → List (UInt32 × V)
  | [] => [(k, v)]
  | (k', v') :: rest =>
    if k < k' then (k, v) :: (k', v') :: rest
    else if k = k' then (k, v) :: rest
    else (k', v') :: insertEntry k v rest

theorem mem_insertEntry {k : UInt32} {v : V} {l : List (UInt32 × V)} {e : UInt32 × V}
    (h : e ∈ insertEntry k v l) : e = (k, v) ∨ e ∈ l := by
  induction l with
  | nil => simpa [insertEntry] using h
  | cons head rest ih =>
    simp only [insertEntry] at h
    split at h
    · simpa using h
    · split at h
      · rcases List.mem_cons.mp h with h | h
        · exact Or.inl h
        · exact Or.inr (List.mem_cons_of_mem _ h)
      · rcases List.mem_cons.mp h with h | h
        · exact Or.inr (by rw [h]; exact List.mem_cons_self)
        · exact (ih h).imp_right (List.mem_cons_of_mem _)

theorem insertEntry_sorted {k : UInt32} {v : V} {l : List (UInt32 × V)}
    (h : l.Pairwise fun a b => a.1 < b.1) :
    (insertEntry k v l).Pairwise fun a b => a.1 < b.1 := by
  induction l with
  | nil => simp [insertEntry]
  | cons head rest ih =>
    obtain ⟨hhead, hrest⟩ := List.pairwise_cons.mp h
    simp only [insertEntry]
    split
    · rename_i hlt
      refine List.pairwise_cons.mpr ⟨?_, h⟩
      intro e he
      rcases List.mem_cons.mp he with rfl | he
      · exact hlt
      · exact UInt32.lt_trans hlt (hhead e he)
    · split
      · rename_i heq
        refine List.pairwise_cons.mpr ⟨?_, hrest⟩
        intro e he
        rw [heq]
        exact hhead e he
      · rename_i hle hne
        have hgt : head.1 < k := by
          rw [UInt32.lt_iff_toNat_lt] at hle ⊢
          have hnat : k.toNat ≠ head.1.toNat := fun heq => hne (UInt32.toNat_inj.mp heq)
          omega
        refine List.pairwise_cons.mpr ⟨?_, ih hrest⟩
        intro e he
        rcases mem_insertEntry he with rfl | he
        · exact hgt
        · exact hhead e he

def insert (m : BTreeMap V) (k : UInt32) (v : V) : BTreeMap V :=
  ⟨insertEntry k v m.entries, insertEntry_sorted m.sorted⟩

def ofEntries (l : List (UInt32 × V)) : BTreeMap V :=
  l.foldl (fun m e => m.insert e.1 e.2) empty

/-- A key above all others goes to the end. -/
theorem insertEntry_last {k : UInt32} {v : V} {l : List (UInt32 × V)} (h : ∀ e ∈ l, e.1 < k) :
    insertEntry k v l = l ++ [(k, v)] := by
  induction l with
  | nil => rfl
  | cons head rest ih =>
    have hhead : head.1 < k := h head List.mem_cons_self
    rw [UInt32.lt_iff_toNat_lt] at hhead
    have hnot : ¬ k < head.1 := by
      rw [UInt32.lt_iff_toNat_lt]
      omega
    have hne : k ≠ head.1 := by
      rintro rfl
      omega
    simp only [insertEntry, hnot, hne, if_false, List.cons_append]
    rw [ih fun e he => h e (List.mem_cons_of_mem _ he)]

theorem foldl_insert (l : List (UInt32 × V)) (m : BTreeMap V)
    (h : (m.entries ++ l).Pairwise fun a b => a.1 < b.1) :
    (l.foldl (fun m e => m.insert e.1 e.2) m).entries = m.entries ++ l := by
  induction l generalizing m with
  | nil => simp
  | cons e l ih =>
    obtain ⟨-, -, hbelow⟩ := List.pairwise_append.mp h
    have hinsert : (m.insert e.1 e.2).entries = m.entries ++ [e] :=
      insertEntry_last fun x hx => hbelow x hx e List.mem_cons_self
    rw [List.foldl_cons, ih (m.insert e.1 e.2), hinsert, List.append_assoc]
    · rfl
    · rw [hinsert, List.append_assoc]
      exact h

/-- Inserting the entries of a map one by one rebuilds it. -/
theorem ofEntries_entries (m : BTreeMap V) : ofEntries m.entries = m := by
  apply ext
  rw [ofEntries, foldl_insert]
  · rfl
  · exact m.sorted

end BTreeMap

namespace Codec

/-- One entry of a map with typed keys and values. -/
def entry (k : Codec D α) (v : Codec D β) (e : Value D × Value D) : Option (α × β) :=
  (k.dec e.1).bind fun a => (v.dec e.2).map fun b => (a, b)

theorem mapM_entry (k : Codec D α) (v : Codec D β) (l : List (α × β)) :
    (l.map fun e => (k.enc e.1, v.enc e.2)).mapM (entry k v) = some l := by
  induction l with
  | nil => rfl
  | cons e l ih =>
    simp only [List.map_cons, List.mapM_cons, ih, entry, k.reads, v.reads]
    rfl

/-- A sorted map: its keys stay what they are, not texts. -/
def btreeMap (v : Codec D β) : Codec D (BTreeMap β) where
  enc m := .map (m.entries.map fun e => (u32.enc e.1, v.enc e.2))
  dec
    | .map es => (es.mapM (entry u32 v)).map BTreeMap.ofEntries
    | _ => none
  reads := by
    intro m
    dsimp only
    rw [mapM_entry, Option.map_some, BTreeMap.ofEntries_entries]

end Codec

/-! ### Records -/

/-- The entry stands under one of these text keys. -/
def among (names : List Text) (e : Value D × Value D) : Bool :=
  match e.1 with
  | .text s => s ∈ names
  | _ => false

/-- The entry stands under this text key. -/
abbrev under (name : Text) (e : Value D × Value D) : Bool := among [name] e

theorem among_iff {names : List Text} {e : Value D × Value D} :
    among names e = true ↔ ∃ s, e.1 = .text s ∧ s ∈ names := by
  unfold among
  split
  · rename_i s hs
    simp [hs]
  · rename_i hother
    constructor
    · simp
    · rintro ⟨s, hs, -⟩
      exact absurd hs (hother s)

theorem among_of_subset {names names' : List Text} (hsubset : names ⊆ names')
    {e : Value D × Value D} (h : among names e = true) : among names' e = true := by
  rw [among_iff] at h ⊢
  obtain ⟨s, hs, hmem⟩ := h
  exact ⟨s, hs, hsubset hmem⟩

theorem not_among_of_disjoint {names names' : List Text} (hdisjoint : names.Disjoint names')
    {e : Value D × Value D} (h : among names e = true) : among names' e = false := by
  obtain ⟨s, hs, hmem⟩ := among_iff.mp h
  rw [← Bool.not_eq_true, among_iff]
  rintro ⟨s', hs', hmem'⟩
  have heq : s = s' := by
    rw [hs] at hs'
    simpa using hs'
  exact hdisjoint hmem (heq ▸ hmem')

/-- What is under some of the keys is found among what is under all of them. -/
theorem filter_among_of_subset {names names' : List Text} (hsubset : names ⊆ names')
    {es l : Entries D} (h : es.filter (among names') = l) :
    es.filter (among names) = l.filter (among names) := by
  rw [← h, List.filter_filter]
  apply List.filter_congr
  intro e _
  cases hmem : among names e with
  | true => rw [among_of_subset hsubset hmem]; rfl
  | false => rfl

/-- No key occurs in both lists. -/
def apart (names names' : List Text) : Bool := names.all fun n => !names'.contains n

theorem disjoint_of_apart {names names' : List Text} (h : apart names names' = true) :
    names.Disjoint names' := by
  intro n hn hn'
  have hnot := List.all_eq_true.mp h n hn
  simp [hn'] at hnot

/-- A group of fields of a record. -/
structure Fields (D α : Type) where
  names : List Text
  /-- The keys without which the group cannot be read. -/
  required : List Text
  put : α → Entries D
  get : Entries D → Option α
  own : ∀ a, ∀ e ∈ put a, among names e = true
  reads : ∀ a es, es.filter (among names) = put a → get es = some a
  needs : ∀ es k, k ∈ required → es.filter (under k) = [] → get es = none

/-- The one value under a key, or what stands in for it when the key is missing.
    A key that occurs twice is an error. -/
def valueUnder (name : Text) (dec : Value D → Option α) (missing : Option α) (es : Entries D) :
    Option α :=
  match es.filter (under name) with
  | [] => missing
  | [e] => dec e.2
  | _ => none

namespace Fields

/-- A field that reads as `missing` when its key is not there, and is left out
    where `skip` says so. -/
def fieldUnless (name : Text) (c : Codec D α) (skip : α → Bool) (missing : Option α)
    (hskip : ∀ a, skip a = true → missing = some a) : Fields D α where
  names := [name]
  required := if missing.isNone then [name] else []
  put a := if skip a then [] else [(.text name, c.enc a)]
  get := valueUnder name c.dec missing
  own := by
    intro a e he
    split at he
    · simp at he
    · rw [List.mem_singleton] at he
      simp [he, among]
  reads := by
    intro a es hes
    rw [valueUnder, hes]
    by_cases hempty : skip a = true
    · rw [if_pos hempty]
      exact hskip a hempty
    · rw [if_neg hempty]
      exact c.reads a
  needs := by
    intro es k hk hes
    split at hk
    · rename_i hmissing
      rw [List.mem_singleton] at hk
      rw [valueUnder, ← hk, hes]
      exact Option.isNone_iff_eq_none.mp hmissing
    · simp at hk

/-- A field that is always written and has to be there. -/
def field (name : Text) (c : Codec D α) : Fields D α :=
  fieldUnless name c (fun _ => false) none (by simp)

/-- A field that is always written and has a default. -/
def fieldOr (name : Text) (c : Codec D α) (default : α) : Fields D α :=
  fieldUnless name c (fun _ => false) (some default) (by simp)

/-- An optional field that is left out when it is `None`. -/
def optional (name : Text) (c : Codec D α) (hsolid : ∀ a, c.enc a ≠ .null) :
    Fields D (Option α) :=
  fieldUnless name (c.option hsolid) Option.isNone (some none) (by
    intro a ha
    rw [Option.isNone_iff_eq_none.mp ha])

/-- A list field that is left out when it is empty. -/
def listUnlessEmpty (name : Text) (c : Codec D α) : Fields D (List α) :=
  fieldUnless name c.list List.isEmpty (some []) (by
    intro a ha
    rw [List.isEmpty_iff.mp ha])

/-- No fields at all. -/
def unit : Fields D Unit where
  names := []
  required := []
  put _ := []
  get _ := some ()
  own := by simp
  reads := fun _ _ _ => rfl
  needs := by simp

/-- Two groups side by side. -/
def and (f : Fields D α) (g : Fields D β) (hapart : apart f.names g.names = true) :
    Fields D (α × β) where
  names := f.names ++ g.names
  required := f.required ++ g.required
  put p := f.put p.1 ++ g.put p.2
  get es := (f.get es).bind fun a => (g.get es).map fun b => (a, b)
  own := by
    intro p e he
    rcases List.mem_append.mp he with he | he
    · exact among_of_subset (List.subset_append_left _ _) (f.own p.1 e he)
    · exact among_of_subset (List.subset_append_right _ _) (g.own p.2 e he)
  reads := by
    intro p es hes
    have hdisjoint := disjoint_of_apart hapart
    have hown : (f.put p.1).filter (among f.names) = f.put p.1 :=
      List.filter_eq_self.mpr (f.own p.1)
    have hown' : (g.put p.2).filter (among g.names) = g.put p.2 :=
      List.filter_eq_self.mpr (g.own p.2)
    have hnone : (g.put p.2).filter (among f.names) = [] := by
      rw [List.filter_eq_nil_iff]
      intro e he
      simp [not_among_of_disjoint (List.disjoint_comm.mp hdisjoint) (g.own p.2 e he)]
    have hnone' : (f.put p.1).filter (among g.names) = [] := by
      rw [List.filter_eq_nil_iff]
      intro e he
      simp [not_among_of_disjoint hdisjoint (f.own p.1 e he)]
    have hleft : es.filter (among f.names) = f.put p.1 := by
      rw [filter_among_of_subset (List.subset_append_left _ _) hes, List.filter_append, hown,
        hnone, List.append_nil]
    have hright : es.filter (among g.names) = g.put p.2 := by
      rw [filter_among_of_subset (List.subset_append_right _ _) hes, List.filter_append, hnone',
        hown', List.nil_append]
    rw [f.reads p.1 es hleft, g.reads p.2 es hright]
    rfl
  needs := by
    intro es k hk hes
    rcases List.mem_append.mp hk with hk | hk
    · rw [f.needs es k hk hes]
      rfl
    · rw [g.needs es k hk hes]
      cases f.get es <;> rfl

/-- The same fields for a type that carries the same data. -/
def via (f : Fields D β) (split : α → β) (join : β → α) (hjoin : ∀ a, join (split a) = a) :
    Fields D α where
  names := f.names
  required := f.required
  put a := f.put (split a)
  get es := (f.get es).map join
  own := fun a => f.own (split a)
  reads := by
    intro a es hes
    rw [f.reads (split a) es hes, Option.map_some, hjoin]
  needs := by
    intro es k hk hes
    rw [f.needs es k hk hes]
    rfl

/-- What a group wrote alone it reads. -/
theorem get_put (f : Fields D α) (a : α) : f.get (f.put a) = some a :=
  f.reads a (f.put a) (List.filter_eq_self.mpr (f.own a))

/-- A group refuses what another wrote when it needs a key the other lacks. -/
theorem refuses (f : Fields D α) (g : Fields D β) {k : Text} (hk : k ∈ f.required)
    (hlacks : k ∉ g.names) (b : β) : f.get (g.put b) = none := by
  apply f.needs _ k hk
  rw [List.filter_eq_nil_iff]
  intro e he
  have hnot : under k e = false := not_among_of_disjoint (by simpa using hlacks) (g.own b e he)
  simp [hnot]

end Fields

/-- A record is a map of its fields. -/
def Codec.record (f : Fields D α) : Codec D α where
  enc a := .map (f.put a)
  dec
    | .map es => f.get es
    | _ => none
  reads := f.get_put

/-! ### Enums -/

/-- A variant of an enum: its fields and the value they make. -/
structure Variant (D ε : Type) where
  Payload : Type
  fields : Fields D Payload
  make : Payload → ε

variable {ε : Type}

def Variant.read (v : Variant D ε) (es : Entries D) : Option ε := (v.fields.get es).map v.make

theorem Variant.read_put (v : Variant D ε) (a : v.Payload) :
    v.read (v.fields.put a) = some (v.make a) := by
  rw [read, v.fields.get_put, Option.map_some]

/-- A variant's map with its name in front, under the tag's key. -/
def encTagged (tag : Text) (v : Text × Variant D ε) (a : v.2.Payload) : Value D :=
  .map ((.text tag, .text v.1) :: v.2.fields.put a)

/-- Reading looks the variant up by the one name under the tag's key and hands
    it the other entries. -/
def decTagged (tag : Text) (variants : List (Text × Variant D ε)) : Value D → Option ε
  | .map es =>
    match es.filter (under tag) with
    | [(_, .text name)] =>
      match variants.find? fun v => v.1 = name with
      | some v => v.2.read (es.filter fun e => !under tag e)
      | none => none
    | _ => none
  | _ => none

/-- The variants' names are distinct and none has a field under the tag's key. -/
def wellTagged (tag : Text) (variants : List (Text × Variant D ε)) : Bool :=
  decide (variants.map Prod.fst).Nodup && variants.all fun v => !v.2.fields.names.contains tag

theorem find?_of_nodup {variants : List (Text × Variant D ε)}
    (hnodup : (variants.map Prod.fst).Nodup) {v : Text × Variant D ε} (hmem : v ∈ variants) :
    variants.find? (fun w => w.1 = v.1) = some v := by
  induction variants with
  | nil => simp at hmem
  | cons w variants ih =>
    obtain ⟨hnot, hnodup⟩ := List.nodup_cons.mp hnodup
    rcases List.mem_cons.mp hmem with rfl | hmem
    · simp
    · have hne : w.1 ≠ v.1 := by
        intro heq
        apply hnot
        rw [heq]
        exact List.mem_map_of_mem (f := Prod.fst) hmem
      rw [List.find?_cons_of_neg (by simpa using hne)]
      exact ih hnodup hmem

/-- A tagged enum reads back the variant it wrote. -/
theorem decTagged_encTagged {tag : Text} {variants : List (Text × Variant D ε)}
    (hwell : wellTagged tag variants = true) (i : Nat) {v : Text × Variant D ε}
    (hvariant : variants[i]? = some v) (a : v.2.Payload) :
    decTagged tag variants (encTagged tag v a) = some (v.2.make a) := by
  have hmem : v ∈ variants := List.mem_of_getElem? hvariant
  rw [wellTagged, Bool.and_eq_true, decide_eq_true_eq, List.all_eq_true] at hwell
  have htag : tag ∉ v.2.fields.names := by simpa using hwell.2 _ hmem
  have hothers : ∀ e ∈ v.2.fields.put a, under tag e = false := fun e he =>
    not_among_of_disjoint (by simpa using htag) (v.2.fields.own a e he)
  have htagged : ((.text tag, .text v.1) :: v.2.fields.put a : Entries D).filter (under tag) =
      [(.text tag, .text v.1)] := by
    rw [List.filter_cons_of_pos (by simp [among]),
      List.filter_eq_nil_iff.mpr (fun e he => by simp [hothers e he])]
  have hrest : ((.text tag, .text v.1) :: v.2.fields.put a : Entries D).filter
      (fun e => !under tag e) = v.2.fields.put a := by
    rw [List.filter_cons_of_neg (by simp [among]),
      List.filter_eq_self.mpr (fun e he => by simp [hothers e he])]
  simp only [decTagged, encTagged, htagged, find?_of_nodup hwell.1 hmem, hrest]
  exact v.2.read_put a

/-- A variant of an untagged enum is its map alone. -/
def encUntagged (v : Variant D ε) (a : v.Payload) : Value D := .map (v.fields.put a)

/-- An untagged enum takes the first variant that can be read. -/
def decUntagged (variants : List (Variant D ε)) : Value D → Option ε
  | .map es => variants.findSome? fun v => v.read es
  | _ => none

/-- Each variant needs a key that no later one writes. -/
def wellOrdered : List (Variant D ε) → Bool
  | [] => true
  | v :: variants =>
    (variants.all fun w => v.fields.required.any fun k => !w.fields.names.contains k) &&
      wellOrdered variants

/-- An untagged enum never stops at an earlier variant than the one it wrote. -/
theorem decUntagged_encUntagged {variants : List (Variant D ε)}
    (hwell : wellOrdered variants = true)
    (i : Nat) {v : Variant D ε} (hvariant : variants[i]? = some v) (a : v.Payload) :
    decUntagged variants (encUntagged v a) = some (v.make a) := by
  simp only [decUntagged, encUntagged]
  induction variants generalizing i with
  | nil => simp at hvariant
  | cons w variants ih =>
    rw [wellOrdered, Bool.and_eq_true, List.all_eq_true] at hwell
    obtain ⟨hlater, hrest⟩ := hwell
    cases i with
    | zero =>
      obtain rfl : w = v := by simpa using hvariant
      rw [List.findSome?_cons, w.read_put a]
    | succ i =>
      rw [List.getElem?_cons_succ] at hvariant
      have hsome := hlater v (List.mem_of_getElem? hvariant)
      obtain ⟨k, hk, hlacks⟩ := List.any_eq_true.mp hsome
      have hnone : w.read (v.fields.put a) = none := by
        rw [Variant.read, w.fields.refuses v.fields hk (by simpa using hlacks) a, Option.map_none]
      rw [List.findSome?_cons, hnone]
      exact ih hrest i hvariant

end AiDaemon.Cbor
