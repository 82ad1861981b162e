import Mathlib.Data.List.Basic
import Mathlib.Tactic.Common
import Mathlib.Algebra.Order.BigOperators.Group.List
import Mathlib.Algebra.Order.Ring.Nat
import Mathlib.Data.UInt

/-!
# Occurrences of a pattern

Where a pattern occurs in a list, and what a left-to-right replacement leaves of
it.  Patterns are read up to a map `f` on the elements, so that a comparison that
ignores case is one where `f` folds it.

Two facts carry everything.  An element the pattern does not contain cuts a list
in two, and no occurrence crosses the cut (`occursAt_append_cons`).  And a
replacement whose text starts and ends with such elements cannot assemble a new
occurrence from what it leaves on either side (`rewrite_absent`).
-/

namespace AiDaemon.Occurs

variable {α β : Type}

/-- The pattern stands at position `i`. -/
def OccursAt (p s : List β) (i : Nat) : Prop := p <+: s.drop i

instance [DecidableEq β] (p s : List β) (i : Nat) : Decidable (OccursAt p s i) :=
  inferInstanceAs (Decidable (p <+: s.drop i))

def Absent (p s : List β) : Prop := ∀ i, ¬ OccursAt p s i

/-! ### Cuts -/

theorem isPrefix_of_append_cons {p a b : List β} {sep : β} (hsep : sep ∉ p)
    (h : p <+: a ++ sep :: b) : p <+: a := by
  induction a generalizing p with
  | nil =>
    cases p with
    | nil => exact List.prefix_rfl
    | cons x xs =>
      have hx := (List.cons_prefix_cons.mp h).1
      exact absurd (hx ▸ List.mem_cons_self) hsep
  | cons c cs ih =>
    cases p with
    | nil => exact List.nil_prefix
    | cons x xs =>
      obtain ⟨rfl, htail⟩ := List.cons_prefix_cons.mp h
      exact List.cons_prefix_cons.mpr
        ⟨rfl, ih (fun hmem => hsep (List.mem_cons_of_mem _ hmem)) htail⟩

/-- No occurrence crosses an element the pattern does not contain. -/
theorem occursAt_append_cons {p a b : List β} {sep : β} {i : Nat} (hsep : sep ∉ p)
    (h : OccursAt p (a ++ sep :: b) i) :
    OccursAt p a i ∨ ∃ j, i = a.length + 1 + j ∧ OccursAt p b j := by
  unfold OccursAt at h
  by_cases hi : i ≤ a.length
  · left
    rw [List.drop_append_of_le_length hi] at h
    exact isPrefix_of_append_cons hsep h
  · right
    obtain ⟨j, rfl⟩ := Nat.exists_eq_add_of_lt (Nat.lt_of_not_le hi)
    refine ⟨j, by omega, ?_⟩
    have hdrop : (a ++ sep :: b).drop (a.length + j + 1) = b.drop j := by
      rw [Nat.add_assoc, ← List.drop_drop, List.drop_left]
      rfl
    rw [hdrop] at h
    exact h

theorem OccursAt.append_right {p a : List β} {i : Nat} (h : OccursAt p a i) (hi : i ≤ a.length)
    (b : List β) : OccursAt p (a ++ b) i := by
  unfold OccursAt at h ⊢
  rw [List.drop_append_of_le_length hi]
  exact h.trans (List.prefix_append _ _)

theorem OccursAt.append_left {p b : List β} {i : Nat} (h : OccursAt p b i) (a : List β) :
    OccursAt p (a ++ b) (a.length + i) := by
  unfold OccursAt at h ⊢
  rw [← List.drop_drop, List.drop_left]
  exact h

/-- A pattern ends where the list it occurs in does, or before. -/
theorem OccursAt.length_le {p s : List β} {i : Nat} (hp : p ≠ []) (h : OccursAt p s i) :
    i + p.length ≤ s.length := by
  have hlen := List.IsPrefix.length_le h
  have hpos := List.length_pos_of_ne_nil hp
  rw [List.length_drop] at hlen
  omega

/-- A pattern with an element the list lacks is absent from it. -/
theorem absent_of_mem_not_mem {p s : List β} {c : β} (hp : c ∈ p) (hs : c ∉ s) : Absent p s := by
  intro i h
  have hmem : c ∈ s.drop i := List.IsPrefix.subset h hp
  exact hs (List.mem_of_mem_drop hmem)

theorem absent_of_length_lt {p s : List β} (h : s.length < p.length) : Absent p s := by
  intro i hoccurs
  have hle := List.IsPrefix.length_le hoccurs
  rw [List.length_drop] at hle
  omega

/-- An infix of a list has no occurrence the list has not. -/
theorem Absent.of_isInfix {p s t : List β} (hp : p ≠ []) (hinner : t <:+: s) (h : Absent p s) :
    Absent p t := by
  intro i hoccurs
  obtain ⟨l, r, rfl⟩ := hinner
  have hle := hoccurs.length_le hp
  have hin : OccursAt p (t ++ r) i := hoccurs.append_right (by omega) r
  have hout := hin.append_left l
  rw [← List.append_assoc] at hout
  exact h _ hout

/-! ### Replacing -/

/-- Copy a list, putting `rep` wherever `hit` names the length of a match. The
    counter is what is left of a match to skip. -/
def rewrite (hit : List α → Option Nat) (rep : List α) : Nat → List α → List α
  | _, [] => []
  | skip + 1, _ :: cs => rewrite hit rep skip cs
  | 0, c :: cs =>
    match hit (c :: cs) with
    | some len => rep ++ rewrite hit rep (len - 1) cs
    | none => c :: rewrite hit rep 0 cs

/-- Skipping is dropping. -/
theorem rewrite_skip (hit : List α → Option Nat) (rep : List α) (skip : Nat) (s : List α) :
    rewrite hit rep skip s = rewrite hit rep 0 (s.drop skip) := by
  induction s generalizing skip with
  | nil => cases skip <;> rfl
  | cons c cs ih =>
    cases skip with
    | zero => rfl
    | succ skip => exact ih skip

/-- With nothing to replace the copy is the list. -/
theorem rewrite_eq_self {hit : List α → Option Nat} {rep s : List α}
    (h : ∀ t, t <:+ s → t ≠ [] → hit t = none) : rewrite hit rep 0 s = s := by
  induction s with
  | nil => rfl
  | cons c cs ih =>
    have hrest := ih fun t ht => h t (ht.trans (List.suffix_cons c cs))
    rw [rewrite, h _ List.suffix_rfl (List.cons_ne_nil c cs), hrest]

section Rewrite

variable {hit : List α → Option Nat} (f : α → β) {p : List β} {bra ket : α} {mid : List α}

/-- Up to its first replacement the copy is the list, and what starts before a
    replacement stops there. -/
theorem isPrefix_of_rewrite (hbra : f bra ∉ p) {s : List α}
    (h : p <+: (rewrite hit (bra :: mid ++ [ket]) 0 s).map f) : p <+: s.map f := by
  induction s generalizing p with
  | nil => exact h
  | cons c cs ih =>
    cases p with
    | nil => exact List.nil_prefix
    | cons x xs =>
      cases hhit : hit (c :: cs) with
      | some len =>
        simp only [rewrite, hhit, List.cons_append, List.map_cons] at h
        have hx := (List.cons_prefix_cons.mp h).1
        exact absurd (hx ▸ List.mem_cons_self) hbra
      | none =>
        simp only [rewrite, hhit, List.map_cons] at h
        obtain ⟨rfl, htail⟩ := List.cons_prefix_cons.mp h
        have hxs : f bra ∉ xs := fun hmem => hbra (List.mem_cons_of_mem _ hmem)
        exact List.cons_prefix_cons.mpr ⟨rfl, ih hxs htail⟩

/-- A pattern that is hit wherever it stands is gone after the replacement, and
    one that stood nowhere is not assembled by it. -/
theorem rewrite_absent (hp : p ≠ []) (hbra : f bra ∉ p) (hket : f ket ∉ p)
    (hrep : Absent p ((bra :: mid).map f)) {s : List α}
    (hhits : ∀ t, t <:+ s → p <+: t.map f → hit t ≠ none) (skip : Nat) :
    Absent p ((rewrite hit (bra :: mid ++ [ket]) skip s).map f) := by
  induction s generalizing skip with
  | nil =>
    have hnil : rewrite hit (bra :: mid ++ [ket]) skip [] = [] := by
      cases skip <;> rfl
    rw [hnil]
    exact absent_of_length_lt (by simpa using List.length_pos_of_ne_nil hp)
  | cons c cs ih =>
    have hrest : ∀ t, t <:+ cs → p <+: t.map f → hit t ≠ none := fun t ht =>
      hhits t (ht.trans (List.suffix_cons c cs))
    cases skip with
    | succ skip => exact ih hrest skip
    | zero =>
      cases hhit : hit (c :: cs) with
      | some len =>
        intro i hoccurs
        simp only [rewrite, hhit, List.map_append, List.map_cons, List.append_assoc,
          List.singleton_append] at hoccurs
        rcases occursAt_append_cons hket hoccurs with hbefore | ⟨j, -, hafter⟩
        · exact hrep i (by simpa using hbefore)
        · exact ih hrest (len - 1) j hafter
      | none =>
        intro i hoccurs
        simp only [rewrite, hhit, List.map_cons] at hoccurs
        cases i with
        | zero =>
          have hcopy : p <+: (rewrite hit (bra :: mid ++ [ket]) 0 (c :: cs)).map f := by
            simp only [rewrite, hhit, List.map_cons]
            exact hoccurs
          exact hhits (c :: cs) List.suffix_rfl (isPrefix_of_rewrite f hbra hcopy) hhit
        | succ i => exact ih hrest 0 i hoccurs

end Rewrite

/-- Where every replacement weighs at least what it replaces, the copy weighs at least
    as much as what of the list is not skipped. -/
theorem weight_le_rewrite {hit : List α → Option Nat} {rep : List α} (w : α → Nat)
    (hhit : ∀ s len, hit s = some len →
      0 < len ∧ ((s.take len).map w).sum ≤ (rep.map w).sum) (skip : Nat) (s : List α) :
    (s.map w).sum ≤ ((s.take skip).map w).sum + ((rewrite hit rep skip s).map w).sum := by
  induction s generalizing skip with
  | nil => exact Nat.zero_le _
  | cons c cs ih =>
    cases skip with
    | succ skip =>
      have hrest := ih skip
      simp only [List.map_cons, List.sum_cons, List.take_succ_cons, rewrite]
      omega
    | zero =>
      cases h : hit (c :: cs) with
      | some len =>
        obtain ⟨hpos, hle⟩ := hhit (c :: cs) len h
        obtain ⟨more, rfl⟩ := Nat.exists_eq_add_of_lt hpos
        have hrest := ih more
        simp only [Nat.zero_add, List.take_succ_cons, List.map_cons, List.sum_cons] at hle
        simp only [rewrite, h, List.map_append, List.sum_append, List.map_cons, List.sum_cons,
          Nat.zero_add, Nat.add_sub_cancel]
        omega
      | none =>
        have hrest := ih 0
        simp only [List.take_zero, List.map_nil, List.sum_nil] at hrest ⊢
        simp only [rewrite, h, List.map_cons, List.sum_cons]
        omega

end AiDaemon.Occurs
