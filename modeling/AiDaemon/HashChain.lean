import Mathlib.Data.List.Induction
import Mathlib.Tactic.Common

/-!
# Hash chains

A log whose every entry carries the hash of the entry before it, and whose first
carries none.  What makes the chain tamper-evident is `Linked.unique`: when the
hash is injective, the last entry settles all the others.
-/

namespace AiDaemon.HashChain

variable {L H : Type} (hash : L → H) (link : L → Option H)

/-- Every entry carries the hash of the one before it; before the first stands
    whatever hashed to `expected`, if anything did. -/
def Linked : Option H → List L → Prop
  | _, [] => True
  | expected, entry :: entries => link entry = expected ∧ Linked (some (hash entry)) entries

/-- What the next entry carries. -/
def head (expected : Option H) (entries : List L) : Option H :=
  match entries.getLast? with
  | some entry => some (hash entry)
  | none => expected

@[simp] theorem head_nil (expected : Option H) : head hash expected [] = expected := rfl

@[simp] theorem head_cons (expected : Option H) (entry : L) (entries : List L) :
    head hash expected (entry :: entries) = head hash (some (hash entry)) entries := by
  unfold head
  cases entries with
  | nil => rfl
  | cons entry' entries =>
    rw [List.getLast?_cons_cons]
    cases hlast : (entry' :: entries).getLast? with
    | none => simp at hlast
    | some entry => rfl

@[simp] theorem head_concat (expected : Option H) (entries : List L) (entry : L) :
    head hash expected (entries ++ [entry]) = some (hash entry) := by
  simp [head]

theorem linked_append {expected : Option H} {entries later : List L} :
    Linked hash link expected (entries ++ later) ↔
      Linked hash link expected entries ∧ Linked hash link (head hash expected entries) later := by
  induction entries generalizing expected with
  | nil => simp [Linked]
  | cons entry entries ih => simp [Linked, ih, and_assoc]

/-- One more entry links when it carries the head. -/
theorem linked_concat {expected : Option H} {entries : List L} {entry : L} :
    Linked hash link expected (entries ++ [entry]) ↔
      Linked hash link expected entries ∧ link entry = head hash expected entries := by
  rw [linked_append]
  simp [Linked]

variable {hash link}

theorem head_none_injective (hinj : Function.Injective hash) {entries entries' : List L}
    (h : head hash none entries = head hash none entries') :
    entries.getLast? = entries'.getLast? := by
  unfold head at h
  cases hlast : entries.getLast? with
  | none =>
    cases hlast' : entries'.getLast? with
    | none => rfl
    | some entry' => simp [hlast, hlast'] at h
  | some entry =>
    cases hlast' : entries'.getLast? with
    | none => simp [hlast, hlast'] at h
    | some entry' =>
      simp only [hlast, hlast', Option.some.injEq] at h
      rw [hinj h]

/-- **Commitment.** Two whole chains with the same last entry are the same. -/
theorem Linked.unique (hinj : Function.Injective hash) {entries entries' : List L}
    (h : Linked hash link none entries) (h' : Linked hash link none entries')
    (hlast : entries.getLast? = entries'.getLast?) : entries = entries' := by
  -- backwards, from the last entry to the one it carries the hash of
  induction entries using List.reverseRecOn generalizing entries' with
  | nil =>
    have hnil : entries'.getLast? = none := by rw [← hlast]; rfl
    exact (List.getLast?_eq_none_iff.mp hnil).symm
  | append_singleton entries entry ih =>
    rw [List.getLast?_concat] at hlast
    obtain ⟨before, rfl⟩ := List.getLast?_eq_some_iff.mp hlast.symm
    rw [linked_concat] at h h'
    have hhead : head hash none entries = head hash none before := by rw [← h.2, h'.2]
    rw [ih h.1 h'.1 (head_none_injective hinj hhead)]

end AiDaemon.HashChain
