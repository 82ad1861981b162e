import Mathlib.Data.Set.Basic
import Mathlib.Logic.Function.Basic
import Mathlib.Tactic.Common

/-!
# Stores named by contents

Contents are kept under their digests, and names refer to them.  A store holds
what is referred to (`Held`), and is exact if it holds nothing else (`Exact`).
What a name refers to is changed one name at a time; what that does to the
digests that are referred to is said by `named_update`, and when it keeps a
store exact by `exact_update_iff`.
-/

namespace AiDaemon.ContentStore

variable {ν δ : Type} (refs : ν → Option δ) (blobs : Set δ)

/-- The digests that some name refers to. -/
def Named : Set δ := {d | ∃ n, refs n = some d}

/-- Nothing that is referred to is missing. -/
def Held : Prop := Named refs ⊆ blobs

/-- And nothing else is kept. -/
def Exact : Prop := blobs = Named refs

variable {refs blobs}

theorem Exact.held (h : Exact refs blobs) : Held refs blobs := h.symm.subset

variable [DecidableEq ν]

/-- A digest that another name refers to. -/
def Elsewhere (refs : ν → Option δ) (n : ν) (d : δ) : Prop := ∃ m, m ≠ n ∧ refs m = some d

variable (refs) in
theorem named_update (n : ν) (r : Option δ) (d : δ) :
    d ∈ Named (Function.update refs n r) ↔ r = some d ∨ Elsewhere refs n d := by
  constructor
  · rintro ⟨m, hm⟩
    by_cases hsame : m = n
    · subst hsame
      rw [Function.update_self] at hm
      exact .inl hm
    · rw [Function.update_of_ne hsame] at hm
      exact .inr ⟨m, hsame, hm⟩
  · rintro (rfl | ⟨m, hne, hm⟩)
    · exact ⟨n, Function.update_self _ _ _⟩
    · exact ⟨m, by rw [Function.update_of_ne hne, hm]⟩

theorem named_iff (n : ν) (d : δ) : d ∈ Named refs ↔ refs n = some d ∨ Elsewhere refs n d := by
  have h := named_update refs n (refs n) d
  rwa [Function.update_eq_self] at h

/-- **An exact store stays exact** if what it gets is referred to, what the name
    refers to now is there, and what it referred to before still is referred to. -/
theorem exact_update_iff (h : Exact refs blobs) (n : ν) (r : Option δ) (new : Set δ) :
    Exact (Function.update refs n r) (blobs ∪ new) ↔
      (∀ d ∈ new, d ∈ Named (Function.update refs n r)) ∧ (∀ d ∈ r, d ∈ blobs ∪ new) ∧
        ∀ d ∈ refs n, d ∈ Named (Function.update refs n r) := by
  rw [Exact] at h
  constructor
  · intro hexact
    rw [Exact] at hexact
    refine ⟨fun d hd => ?_, fun d hd => ?_, fun d hd => ?_⟩
    · rw [← hexact]
      exact .inr hd
    · rw [hexact, named_update]
      exact .inl hd
    · rw [← hexact, h]
      exact .inl ⟨n, hd⟩
  · rintro ⟨hnew, hset, hold⟩
    refine Set.Subset.antisymm ?_ ?_
    · rintro d (hd | hd)
      · rw [h, named_iff n] at hd
        rcases hd with hd | hd
        · exact hold d hd
        · exact (named_update refs n r d).mpr (.inr hd)
      · exact hnew d hd
    · intro d hd
      rcases (named_update refs n r d).mp hd with hd | ⟨m, -, hm⟩
      · exact hset d hd
      · rw [h]
        exact .inl ⟨m, hm⟩

/-- Taking a name away, and what it referred to if nothing else does. -/
theorem exact_remove_iff (h : Exact refs blobs) (n : ν) (old : Set δ) :
    Exact (Function.update refs n none) (blobs \ old) ↔
      (∀ d ∈ old, d ∈ blobs → ¬ Elsewhere refs n d) ∧
        ∀ d ∈ refs n, Elsewhere refs n d ∨ d ∈ old := by
  rw [Exact] at h
  have hnamed : ∀ d, d ∈ Named (Function.update refs n none) ↔ Elsewhere refs n d := by
    intro d
    rw [named_update]
    simp
  constructor
  · intro hexact
    rw [Exact] at hexact
    refine ⟨fun d hd _ helse => ?_, fun d hd => ?_⟩
    · rw [← hnamed, ← hexact] at helse
      exact helse.2 hd
    · by_cases hin : d ∈ old
      · exact .inr hin
      · have hblob : d ∈ blobs \ old := ⟨by rw [h]; exact ⟨n, hd⟩, hin⟩
        rw [hexact, hnamed] at hblob
        exact .inl hblob
  · rintro ⟨hold, hkept⟩
    refine Set.ext fun d => ?_
    rw [hnamed]
    constructor
    · rintro ⟨hd, hnot⟩
      rw [h, named_iff n] at hd
      rcases hd with hd | hd
      · exact (hkept d hd).resolve_right hnot
      · exact hd
    · intro helse
      have hd : d ∈ blobs := by
        rw [h, named_iff n]
        exact .inr helse
      exact ⟨hd, fun hin => hold d hin hd helse⟩

end AiDaemon.ContentStore
