import Mathlib.Algebra.Order.BigOperators.Group.List
import Mathlib.Algebra.Order.Group.Nat
import Mathlib.Data.List.Basic
import Mathlib.Tactic.Common

/-!
# Lists put together from parts

Two lists that are made of corresponding parts are equal as soon as the parts
are, and where no part of the one is longer than its counterpart, only then
(`append_eq_append_iff_of_length_le`, `flatMap_eq_flatMap_iff`).  Moving the
elements that satisfy `p` behind the others leaves a list as it is when they
stood there already (`sorted_iff`).
-/

namespace AiDaemon.Flattening

variable {α β : Type}

theorem append_eq_append_iff_of_length_le {a a' b b' : List β} (ha : a.length ≤ a'.length)
    (hb : b.length ≤ b'.length) : a ++ b = a' ++ b' ↔ a = a' ∧ b = b' := by
  refine ⟨fun h => ?_, fun ⟨hfirst, hrest⟩ => by rw [hfirst, hrest]⟩
  have hlength := congrArg List.length h
  rw [List.length_append, List.length_append] at hlength
  exact List.append_inj h (by omega)

theorem length_flatMap_le {f g : α → List β} {l : List α}
    (hle : ∀ x ∈ l, (f x).length ≤ (g x).length) :
    (l.flatMap f).length ≤ (l.flatMap g).length := by
  rw [List.length_flatMap, List.length_flatMap]
  exact List.sum_le_sum hle

theorem flatMap_eq_flatMap_iff {f g : α → List β} {l : List α}
    (hle : ∀ x ∈ l, (f x).length ≤ (g x).length) :
    l.flatMap f = l.flatMap g ↔ ∀ x ∈ l, f x = g x := by
  induction l with
  | nil => simp
  | cons x l ih =>
    have hrest : ∀ y ∈ l, (f y).length ≤ (g y).length :=
      fun y hy => hle y (List.mem_cons_of_mem x hy)
    rw [List.flatMap_cons, List.flatMap_cons,
      append_eq_append_iff_of_length_le (hle x List.mem_cons_self) (length_flatMap_le hrest),
      ih hrest, List.forall_mem_cons]

/-- The same for the elements of one kind. -/
theorem filter_eq_of_flatMap_eq {f g : α → List β} {l : List α} (p : β → Bool)
    (hle : ∀ x ∈ l, ((f x).filter p).length ≤ ((g x).filter p).length)
    (h : l.flatMap f = l.flatMap g) : ∀ x ∈ l, (f x).filter p = (g x).filter p := by
  have hkind := congrArg (List.filter p) h
  rw [List.filter_flatMap, List.filter_flatMap] at hkind
  exact (flatMap_eq_flatMap_iff hle).mp hkind

theorem flatMap_filter (f : α → List β) (p : α → Bool) (l : List α) :
    (l.filter p).flatMap f = l.flatMap fun x => if p x then f x else [] := by
  induction l with
  | nil => rfl
  | cons x l ih =>
    by_cases hp : p x = true
    · simp [hp, ih]
    · simp [hp, ih]

/-- A separator that adds nothing. -/
theorem flatMap_intersperse {f : α → List β} {sep : α} (hsep : f sep = []) (l : List α) :
    (l.intersperse sep).flatMap f = l.flatMap f := by
  induction l with
  | nil => rfl
  | cons x l ih =>
    rcases l with _ | ⟨y, l⟩
    · rfl
    · rw [List.intersperse_cons_cons, List.flatMap_cons, List.flatMap_cons, hsep, ih]
      rfl

/-- Moving the elements of a kind keeps each kind as it is. -/
theorem filter_eq_of_moved {p : β → Bool} {l l' : List β}
    (h : l.filter (fun x => !p x) ++ l.filter p = l') :
    l.filter p = l'.filter p ∧ l.filter (fun x => !p x) = l'.filter fun x => !p x := by
  subst h
  simp [List.filter_append, List.filter_filter]

theorem sorted_iff (p : β → Bool) (l : List β) :
    l.filter (fun x => !p x) ++ l.filter p = l ↔
      l.Pairwise fun x y => p x = true → p y = true := by
  constructor
  · intro h
    rw [← h, List.pairwise_append]
    refine ⟨?_, ?_, ?_⟩
    · apply List.pairwise_of_forall_mem_list
      intro x hx y _ hp
      simp [hp] at hx
    · apply List.pairwise_of_forall_mem_list
      intro x _ y hy _
      exact (List.mem_filter.mp hy).2
    · intro x hx y _ hp
      simp [hp] at hx
  · intro h
    induction h with
    | nil => rfl
    | @cons x l hx _ ih =>
      by_cases hp : p x = true
      · -- from `x` on there is nothing but elements of the kind
        have hall : ∀ y ∈ l, p y = true := fun y hy => hx y hy hp
        have hnone : l.filter (fun y => !p y) = [] := by
          rw [List.filter_eq_nil_iff]
          intro y hy
          simp [hall y hy]
        simp [hp, hnone, List.filter_eq_self.mpr hall]
      · simp [hp, ih]

end AiDaemon.Flattening
