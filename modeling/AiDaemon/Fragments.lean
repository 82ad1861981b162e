import Mathlib.Data.List.Perm.Subperm
import Mathlib.Data.List.Nodup
import Mathlib.Data.List.Range

/-!
# Values that come in fragments

Several numbered values are sent over one stream.  The first fragment of a value
has its head, and more fragments may bring pieces of the rest; the fragments of
different values may take turns in any way.  `Splits` says so by what is left of
the stream when one number is picked out.

There are at least as many fragments as values.  With no more than that, every
fragment is a first one, and the stream is the values in some order
(`eq_first`, `perm`).
-/

namespace AiDaemon.Fragments

/-- A fragment of a value with head `η`, or of its pieces `π`. -/
inductive Fragment (η π : Type) where
  | first (index : Nat) (head : η)
  | more (index : Nat) (piece : π)
deriving DecidableEq

variable {η π κ : Type}

namespace Fragment

def index : Fragment η π → Nat
  | .first i _ => i
  | .more i _ => i

end Fragment

/-- The fragments of each value, in their order, are its head and its pieces. -/
structure Splits (join : η → List π → κ) (values : List κ) (fragments : List (Fragment η π)) :
    Prop where
  index_lt : ∀ f ∈ fragments, f.index < values.length
  each : ∀ i v, values[i]? = some v → ∃ head pieces,
    fragments.filter (fun f => f.index = i) = .first i head :: pieces.map (.more i) ∧
      v = join head pieces

namespace Splits

variable {join : η → List π → κ} {values : List κ} {fragments : List (Fragment η π)}

theorem first_mem (h : Splits join values fragments) {i : Nat} {v : κ}
    (hv : values[i]? = some v) : ∃ head, Fragment.first i head ∈ fragments := by
  obtain ⟨head, pieces, hfilter, -⟩ := h.each i v hv
  refine ⟨head, ?_⟩
  have hmem : Fragment.first i head ∈ fragments.filter (fun f => f.index = i) := by
    rw [hfilter]
    exact List.mem_cons_self
  exact (List.mem_filter.mp hmem).1

/-- No value is without a fragment. -/
theorem range_subperm (h : Splits join values fragments) :
    (List.range values.length).Subperm (fragments.map Fragment.index) := by
  apply List.subperm_of_subset List.nodup_range
  intro i hi
  obtain ⟨head, hmem⟩ := h.first_mem (List.getElem?_eq_getElem (List.mem_range.mp hi))
  exact List.mem_map.mpr ⟨_, hmem, rfl⟩

section

variable (h : Splits join values fragments) (hlength : fragments.length = values.length)

include h hlength

theorem perm_range : (List.range values.length).Perm (fragments.map Fragment.index) := by
  refine h.range_subperm.perm_of_length_le ?_
  simp [hlength]

/-- Where there are as many fragments as values, each is a first one and has the
    whole value. -/
theorem eq_first {f : Fragment η π} (hf : f ∈ fragments) :
    ∃ head, f = .first f.index head ∧ values[f.index]? = some (join head []) := by
  obtain ⟨v, hv⟩ : ∃ v, values[f.index]? = some v :=
    ⟨_, List.getElem?_eq_getElem (h.index_lt f hf)⟩
  obtain ⟨head, pieces, hfilter, hjoin⟩ := h.each f.index v hv
  have hnodup : (fragments.map Fragment.index).Nodup :=
    (h.perm_range hlength).nodup_iff.mp List.nodup_range
  -- Two fragments of the value would have the same index.
  have hsame : ∀ g ∈ fragments.filter (fun g => g.index = f.index), g = f := by
    intro g hg
    obtain ⟨hgmem, hgindex⟩ := List.mem_filter.mp hg
    exact List.inj_on_of_nodup_map hnodup hgmem hf (by simpa using hgindex)
  rw [hfilter] at hsame
  have hfirst := hsame _ List.mem_cons_self
  cases pieces with
  | nil => exact ⟨head, hfirst.symm, by rw [hv, hjoin]⟩
  | cons piece pieces =>
    have hmore := hsame (.more f.index piece) (by simp)
    rw [← hfirst] at hmore
    cases hmore

/-- The fragments are then the values in some order. -/
theorem perm : (fragments.map fun f => values[f.index]?).Perm (values.map some) := by
  have hvalues : values.map some = (List.range values.length).map fun i => values[i]? := by
    apply List.ext_getElem <;> simp
  have hindexes : (fragments.map fun f => values[f.index]?) =
      (fragments.map Fragment.index).map fun i => values[i]? := by
    rw [List.map_map]
    rfl
  rw [hvalues, hindexes]
  exact ((h.perm_range hlength).map _).symm

end

end Splits

end AiDaemon.Fragments
