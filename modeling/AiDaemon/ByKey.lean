import Mathlib.Data.List.Sort
import Mathlib.Order.Lattice

/-!
# Maps in key order

An ordered map as the list of its values, each of which has its key, in the order
of the keys.  An insertion takes the place of the value that has the key already.
A list that ascends is what inserting its values one after the other makes of
nothing (`collect_of_ascending`).
-/

namespace AiDaemon.ByKey

variable {κ α : Type} [LinearOrder κ] (key : α → κ)

def insert (x : α) : List α → List α
  | [] => [x]
  | y :: l =>
    if key x < key y then x :: y :: l
    else if key x = key y then x :: l
    else y :: insert x l

/-- What inserting each value in turn makes of a map. -/
def insertAll (l : List α) (values : List α) : List α :=
  values.foldl (fun l x => insert key x l) l

def Ascending (l : List α) : Prop := l.Pairwise fun x y => key x < key y

/-- Sorting by key makes a list without two of one key ascend. -/
theorem ascending_mergeSort {le : α → α → Bool} (hle : ∀ x y, le x y = true ↔ key x ≤ key y)
    {l : List α} (hkeys : (l.map key).Nodup) : Ascending key (l.mergeSort le) := by
  have hsorted : (l.mergeSort le).Pairwise fun x y => le x y := by
    apply List.pairwise_mergeSort
    · intro x y z hxy hyz
      exact (hle x z).2 (le_trans ((hle x y).1 hxy) ((hle y z).1 hyz))
    · intro x y
      simpa [hle] using le_total (key x) (key y)
  have hdistinct : ((l.mergeSort le).map key).Nodup :=
    ((List.mergeSort_perm _ _).map key).nodup_iff.2 hkeys
  refine (hsorted.and (List.pairwise_map.1 hdistinct)).imp ?_
  rintro x y ⟨hxy, hne⟩
  exact lt_of_le_of_ne ((hle x y).1 hxy) hne

/-- A value above all others comes last. -/
theorem insert_of_above {x : α} {l : List α} (h : ∀ y ∈ l, key y < key x) :
    insert key x l = l ++ [x] := by
  induction l with
  | nil => rfl
  | cons y l ih =>
    have hy := h y List.mem_cons_self
    rw [insert, if_neg hy.not_gt, if_neg hy.ne', ih fun z hz => h z (List.mem_cons_of_mem y hz)]
    rfl

theorem insertAll_of_ascending {l values : List α} (h : Ascending key (l ++ values)) :
    insertAll key l values = l ++ values := by
  induction values generalizing l with
  | nil => exact (List.append_nil l).symm
  | cons x values ih =>
    have habove : ∀ y ∈ l, key y < key x := fun y hy =>
      (List.pairwise_append.1 h).2.2 y hy x List.mem_cons_self
    have hsplit : l ++ x :: values = (l ++ [x]) ++ values := by simp
    rw [hsplit] at h ⊢
    rw [insertAll, List.foldl_cons, insert_of_above key habove]
    exact ih h

theorem collect_of_ascending {values : List α} (h : Ascending key values) :
    insertAll key [] values = values :=
  insertAll_of_ascending key h

end AiDaemon.ByKey
