import AiDaemon.JsonRules
import AiDaemon.ShimModels

/-!
# Objects that are written (`serde_json`: `json!`)

What `json!` makes of names and values, as text: it stands in its braces, and a value that is
in order and not too deep (`Settled`) is read as it was written.
-/

namespace AiDaemon.Json

open Shim (object memberAt memberAt_object)

variable {D : Type}

/-! ### What is written is read -/

/-- A value that is read as it was written, with some room around it. -/
def Settled (n : Nat) (v : Value D) : Prop := v.Filed ∧ v.nesting ≤ n

theorem Settled.mono {m n : Nat} {v : Value D} (h : Settled m v) (hle : m ≤ n) : Settled n v :=
  ⟨h.1, h.2.trans hle⟩

theorem Settled.read {floats : Floats D} (hfloats : floats.Lawful) {n : Nat} {v : Value D}
    (h : Settled n v) (hn : n < recursionLimit) : fromStr floats (write floats v) = some v := by
  rw [fromStr_write hfloats (h.2.trans_lt hn), normal_of_filed h.1]

theorem settled_str (n : Nat) (s : Text) : Settled n (.str s : Value D) :=
  ⟨trivial, Nat.zero_le n⟩

theorem settled_null (n : Nat) : Settled n (.null : Value D) := ⟨trivial, Nat.zero_le n⟩

theorem settled_bool (n : Nat) (b : Bool) : Settled n (.bool b : Value D) :=
  ⟨trivial, Nat.zero_le n⟩

theorem settled_num (n : Nat) (number : Number D) : Settled n (.num number) :=
  ⟨trivial, Nat.zero_le n⟩

theorem settled_arr {n : Nat} {vs : List (Value D)} (h : ∀ v ∈ vs, Settled n v) :
    Settled (n + 1) (.arr vs) :=
  ⟨filedItems_iff.mpr fun v hv => (h v hv).1,
    Nat.succ_le_succ (nestingItems_le_iff.mpr fun v hv => (h v hv).2)⟩

theorem settled_obj {n : Nat} {members : List (Text × Value D)}
    (h : ∀ member ∈ members, Settled n member.2) :
    Settled (n + 1) (.obj (collectMembers members)) :=
  ⟨⟨collectMembers_pairwise members, filedMembers_iff.mpr fun member hmember =>
      (h member (mem_collectMembers hmember)).1⟩,
    Nat.succ_le_succ (nestingMembers_le_iff.mpr fun member hmember =>
      (h member (mem_collectMembers hmember)).2)⟩

theorem settled_object {n : Nat} {members : List (String × Value D)}
    (h : ∀ member ∈ members, Settled n member.2) : Settled (n + 1) (object members) := by
  refine settled_obj ?_
  intro member hmember
  obtain ⟨named, hnamed, rfl⟩ := List.mem_map.mp hmember
  exact h named hnamed

/-! ### The members of an object -/

/-- The last of the members under a key. -/
def fieldIn (key : String) (members : List (String × Value D)) : Option (Value D) :=
  (members.reverse.find? fun member => member.1 = key).map Prod.snd

theorem memberAt_fields (key : String) (members : List (String × Value D)) :
    memberAt key (object members) = fieldIn key members := memberAt_object key members

theorem fieldIn_append (key : String) (l r : List (String × Value D)) :
    fieldIn key (l ++ r) = (fieldIn key r).or (fieldIn key l) := by
  rw [fieldIn, List.reverse_append, List.find?_append, Option.map_or]
  rfl

theorem fieldIn_nil (key : String) : fieldIn key ([] : List (String × Value D)) = none := rfl

theorem fieldIn_cons (key name : String) (v : Value D) (members : List (String × Value D)) :
    fieldIn key ((name, v) :: members) =
      (fieldIn key members).or (if name = key then some v else none) := by
  rw [← List.singleton_append, fieldIn_append]
  by_cases h : name = key
  · simp [fieldIn, h]
  · simp [fieldIn, h]

/-- A member that may be there. -/
theorem fieldIn_option {α : Type} (key name : String) (value : α → Value D) (o : Option α) :
    fieldIn key (o.map fun v => (name, value v)).toList =
      if name = key then o.map value else none := by
  cases o with
  | none => exact (ite_self none).symm
  | some v =>
    rw [Option.map_some, Option.toList_some, fieldIn_cons]
    rfl

theorem fieldIn_unless (key name : String) (v : Value D) (c : Prop) [Decidable c] :
    fieldIn key (if c then [] else [(name, v)]) =
      if name = key then (if c then none else some v) else none := by
  by_cases hc : c
  · rw [if_pos hc, if_pos hc]
    exact (ite_self none).symm
  · rw [if_neg hc, if_neg hc, fieldIn_cons]
    rfl

/-! ### As text -/

theorem writeMembers_ends (floats : Floats D) (members : List (Text × Value D)) :
    ∃ front, writeMembers floats members = front ++ ['\x7d'] := by
  induction members with
  | nil =>
    rw [writeMembers]
    exact ⟨[], rfl⟩
  | cons member members ih =>
    obtain ⟨front, hfront⟩ := ih
    refine ⟨',' :: '"' :: (writeString member.1 ++ ':' :: (write floats member.2 ++ front)), ?_⟩
    rw [writeMembers, hfront]
    simp

/-- The text of an object stands in its braces. -/
theorem write_object (floats : Floats D) (members : List (String × Value D)) :
    ∃ inner, write floats (object members) = '\x7b' :: (inner ++ ['\x7d']) := by
  unfold object
  generalize Json.collectMembers (members.map fun member => (member.1.toList, member.2)) = filed
  cases filed with
  | nil =>
    refine ⟨[], ?_⟩
    rw [write]
    rfl
  | cons member more =>
    obtain ⟨front, hfront⟩ := writeMembers_ends floats more
    refine ⟨'"' :: (writeString member.1 ++ ':' :: (write floats member.2 ++ front)), ?_⟩
    rw [write, hfront]
    simp

/-- An object that `format!` puts together, its members in whatever order, on a line. -/
theorem read_object {floats : Floats D} (hfloats : floats.Lawful) {n : Nat}
    {members : List (String × Value D)} (h : ∀ member ∈ members, Settled n member.2)
    (hn : n + 1 < recursionLimit) {ws : Text} (hws : IsBlank ws) :
    fromStr floats
        (write floats (.obj (members.map fun member => (member.1.toList, member.2))) ++ ws) =
      some (object members) := by
  have hfiled : FiledMembers (members.map fun member => (member.1.toList, member.2)) := by
    rw [filedMembers_iff, List.forall_mem_map]
    exact fun member hmember => (h member hmember).1
  have hnesting : nestingMembers (members.map fun member => (member.1.toList, member.2)) ≤ n := by
    rw [nestingMembers_le_iff, List.forall_mem_map]
    exact fun member hmember => (h member hmember).2
  have hnormal : (Value.obj (members.map fun member => (member.1.toList, member.2))).normal =
      object members := by
    rw [Value.normal, normalMembers_of_filed hfiled, object]
  rw [← hnormal, fromStr_eq_some]
  have hdelimited : Delimited ws := by
    have h := delimited_ws hws delimited_nil
    rwa [List.append_nil] at h
  refine ⟨ws, reads_write hfloats _ _ ?_ ws hdelimited, ?_⟩
  · exact Nat.lt_of_le_of_lt (Nat.succ_le_succ hnesting) hn
  · exact List.dropWhile_eq_nil_iff.mpr hws

end AiDaemon.Json
