import AiDaemon.Grammar
import AiDaemon.Wire

/-!
# JSON in a message (`serde_json::Value`, as a data item)

A tool's schema is JSON, and goes over the wire as the data item of its own shape.
It is read back as it was written (`ofItem_toItem`): a map comes with its keys in
order already.
-/

namespace AiDaemon.JsonItem

open Json

variable {D F N : Type}

/-- How a double of JSON is carried by the floating-point numbers of the wire. -/
structure Doubles (D N : Type) where
  widen : N → D
  narrow : D → Option N
  back : ∀ x, narrow (widen x) = some x

section Items

variable (doubles : Doubles D N)

def numberItem : Number N → Cbor.Value D
  | .posInt n => .int n.toNat
  | .negInt n => .int (-(n.val : Int) - 1)
  | .float x => .float (doubles.widen x)

mutual

def toItem : Value N → Cbor.Value D
  | .null => .null
  | .bool b => .bool b
  | .num n => numberItem doubles n
  | .str s => .text s
  | .arr vs => .array (toItems vs)
  | .obj members => .map (toEntries members)

def toItems : List (Value N) → List (Cbor.Value D)
  | [] => []
  | v :: vs => toItem v :: toItems vs

def toEntries : List (Text × Value N) → Cbor.Entries D
  | [] => []
  | (key, v) :: members => (.text key, toItem v) :: toEntries members

end

/-- An integer of 64 bits, with its sign or without. -/
def numberOf (n : Int) : Option (Number N) :=
  if 0 ≤ n then if n < 2 ^ 64 then some (.posInt (.ofNat n.toNat)) else none
  else if h : (-n - 1).toNat < 2 ^ 63 then some (.negInt ⟨(-n - 1).toNat, h⟩) else none

mutual

def ofItem : Cbor.Value D → Option (Value N)
  | .null => some .null
  | .bool b => some (.bool b)
  | .int n => (numberOf n).map .num
  | .float x => (doubles.narrow x).map fun x => .num (.float x)
  | .text s => some (.str s)
  | .array items => (ofItems items).map .arr
  | .map entries => (ofEntries entries).map fun members => .obj (collectMembers members)
  | .bytes _ => none
  | .tag _ _ => none

def ofItems : List (Cbor.Value D) → Option (List (Value N))
  | [] => some []
  | item :: items => (ofItem item).bind fun v => (ofItems items).map fun vs => v :: vs

def ofEntries : List (Cbor.Value D × Cbor.Value D) → Option (List (Text × Value N))
  | [] => some []
  | (key, item) :: entries =>
    match key with
    | .text key =>
      (ofItem item).bind fun v => (ofEntries entries).map fun members => (key, v) :: members
    | _ => none

end

theorem ofItem_numberItem (n : Number N) :
    ofItem doubles (numberItem doubles n) = some (.num n) := by
  cases n with
  | posInt n =>
    have hrange : (0 : Int) ≤ n.toNat ∧ (n.toNat : Int) < 2 ^ 64 := by
      have := n.toNat_lt
      omega
    simp only [numberItem, ofItem, numberOf, if_pos hrange.1, if_pos hrange.2, Int.toNat_natCast,
      UInt64.ofNat_toNat, Option.map_some]
  | negInt n =>
    have hneg : ¬(0 : Int) ≤ -(n.val : Int) - 1 := by omega
    have hback : (-(-(n.val : Int) - 1) - 1).toNat = n.val := by omega
    simp only [numberItem, ofItem, numberOf, if_neg hneg, hback, n.isLt, dite_true,
      Option.map_some]
  | float x => simp [numberItem, ofItem, doubles.back]

mutual

theorem ofItem_toItem {v : Value N} (h : v.Filed) : ofItem doubles (toItem doubles v) = some v := by
  cases v with
  | arr vs => rw [toItem, ofItem, ofItems_toItems h, Option.map_some]
  | obj members =>
    rw [toItem, ofItem, ofEntries_toEntries h.2, Option.map_some, collectMembers_sorted h.1]
  | num n => exact ofItem_numberItem doubles n
  | null => rfl
  | bool => rfl
  | str => rfl

theorem ofItems_toItems {vs : List (Value N)} (h : FiledItems vs) :
    ofItems doubles (toItems doubles vs) = some vs := by
  cases vs with
  | nil => rfl
  | cons v vs =>
    rw [toItems, ofItems, ofItem_toItem h.1, ofItems_toItems h.2]
    rfl

theorem ofEntries_toEntries {members : List (Text × Value N)} (h : FiledMembers members) :
    ofEntries doubles (toEntries doubles members) = some members := by
  cases members with
  | nil => rfl
  | cons member members =>
    obtain ⟨key, v⟩ := member
    rw [toEntries, ofEntries, ofItem_toItem h.1, ofEntries_toEntries h.2]
    rfl

end

end Items

/-! ### Schemas -/

mutual

def decidableFiled : (v : Value N) → Decidable v.Filed
  | .null => isTrue (by simp [Value.Filed])
  | .bool _ => isTrue (by simp [Value.Filed])
  | .num _ => isTrue (by simp [Value.Filed])
  | .str _ => isTrue (by simp [Value.Filed])
  | .arr vs =>
    have := decidableItems vs
    decidable_of_iff (FiledItems vs) (by rw [Value.Filed])
  | .obj members =>
    have := decidableMembers members
    decidable_of_iff ((members.map Prod.fst).Pairwise (· < ·) ∧ FiledMembers members)
      (by rw [Value.Filed])

def decidableItems : (vs : List (Value N)) → Decidable (FiledItems vs)
  | [] => isTrue (by simp [FiledItems])
  | v :: vs =>
    have := decidableFiled v
    have := decidableItems vs
    decidable_of_iff (v.Filed ∧ FiledItems vs) (by rw [FiledItems])

def decidableMembers : (members : List (Text × Value N)) → Decidable (FiledMembers members)
  | [] => isTrue (by simp [FiledMembers])
  | (_, v) :: members =>
    have := decidableFiled v
    have := decidableMembers members
    decidable_of_iff (v.Filed ∧ FiledMembers members) (by rw [FiledMembers])

end

instance (v : Value N) : Decidable v.Filed := decidableFiled v

/-- What is read has its keys in order; what has not was not written here. -/
def schemaOf (doubles : Doubles D N) (item : Cbor.Value D) : Option (Grammar.Schema N) :=
  (ofItem doubles item).bind fun v => if h : v.Filed then some ⟨v, h⟩ else none

def schema (doubles : Doubles D N) : Cbor.Codec D (Grammar.Schema N) where
  enc s := toItem doubles s.value
  dec := schemaOf doubles
  reads s := by simp [schemaOf, ofItem_toItem doubles s.filed, s.filed]

/-- The messages' numbers and schemas. -/
def foreign (floats : Wire.Floats D F) (doubles : Doubles D N) :
    Wire.Foreign D F (Grammar.Schema N) where
  floats := floats
  json := schema doubles
  jsonNull := ⟨.null, by simp [Value.Filed]⟩

end AiDaemon.JsonItem
