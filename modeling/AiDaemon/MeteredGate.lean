import Mathlib.Algebra.BigOperators.Group.List.Basic
import Mathlib.Logic.Relation
import Mathlib.Tactic.Common
import Mathlib.Algebra.Order.BigOperators.Group.List
import Mathlib.Algebra.Order.Ring.Nat
import Mathlib.Data.UInt

/-!
# Metered gates

A gate lets a job in while a total stands below a ceiling, and learns what the
job costs only when it is over.  The total is what the costs add up to, less
whatever has been forgotten, and the gate reads it in a register that may be too
small for it.  With a bound on the jobs that are in at once the total stays below
the ceiling and the costs of that many jobs (`Gate.Inv.bounded`).

The jobs are those that were in when one was last let in: what the total was
then is below the ceiling, and nothing else has been added since.
-/

namespace AiDaemon.MeteredGate

structure Gate where
  total : Nat
  /-- How many jobs are in. -/
  admitted : Nat
  /-- What the jobs that are over cost. -/
  costs : List Nat

def Gate.new : Gate := ⟨0, 0, []⟩

variable (modulus ceiling capacity : Nat)

/-- One step of a gate whose register holds numbers below `modulus`. -/
inductive Gate.Step : Gate → Gate → Prop where
  | decay {g : Gate} {total : Nat} (h : total ≤ g.total) : Step g { g with total }
  | enter {g : Gate} (hbelow : g.total % modulus < ceiling) (hroom : g.admitted < capacity) :
      Step g { g with admitted := g.admitted + 1 }
  | settle {g : Gate} {admitted : Nat} (cost : Nat) (h : g.admitted = admitted + 1) :
      Step g ⟨g.total + cost, admitted, g.costs ++ [cost]⟩

/-- What has been added since the last job was let in, or a time the register
    was too small. -/
def Gate.Inv (g : Gate) : Prop :=
  ∃ chosen : List Nat, chosen.Sublist g.costs ∧
    ((∃ base < ceiling, g.total ≤ base + chosen.sum ∧ chosen.length + g.admitted ≤ capacity) ∨
      chosen.length ≤ capacity ∧ modulus ≤ ceiling + chosen.sum)

variable {modulus ceiling capacity} {g g' : Gate}

theorem Gate.inv_new (hceiling : 0 < ceiling) : Gate.new.Inv modulus ceiling capacity :=
  ⟨[], List.Sublist.refl [], Or.inl ⟨0, hceiling, by simp [Gate.new], by simp [Gate.new]⟩⟩

theorem Gate.Inv.step (h : g.Step modulus ceiling capacity g')
    (hinv : g.Inv modulus ceiling capacity) : g'.Inv modulus ceiling capacity := by
  obtain ⟨chosen, hsub, hcase⟩ := hinv
  cases h with
  | decay h =>
    rcases hcase with ⟨base, hbase, htotal, hlength⟩ | hover
    · exact ⟨chosen, hsub, Or.inl ⟨base, hbase, Nat.le_trans h htotal, hlength⟩⟩
    · exact ⟨chosen, hsub, Or.inr hover⟩
  | enter hbelow hroom =>
    rcases hcase with ⟨base, hbase, htotal, hlength⟩ | hover
    · by_cases hfits : g.total < modulus
      · -- the register shows the total, which is the new base
        rw [Nat.mod_eq_of_lt hfits] at hbelow
        refine ⟨[], List.nil_sublist _, Or.inl ⟨g.total, hbelow, by simp, ?_⟩⟩
        simpa using Nat.succ_le_of_lt hroom
      · exact ⟨chosen, hsub, Or.inr ⟨by omega, by omega⟩⟩
    · exact ⟨chosen, hsub, Or.inr hover⟩
  | settle cost h =>
    rcases hcase with ⟨base, hbase, htotal, hlength⟩ | ⟨hlength, hover⟩
    · refine ⟨chosen ++ [cost], hsub.append (List.Sublist.refl _), Or.inl ⟨base, hbase, ?_, ?_⟩⟩
      · rw [List.sum_append, List.sum_singleton]
        dsimp only
        omega
      · rw [List.length_append, List.length_singleton]
        dsimp only
        omega
    · exact ⟨chosen, hsub.trans (List.sublist_append_left _ _), Or.inr ⟨hlength, hover⟩⟩

theorem Gate.Inv.steps (h : Relation.ReflTransGen (Gate.Step modulus ceiling capacity) g g')
    (hinv : g.Inv modulus ceiling capacity) : g'.Inv modulus ceiling capacity := by
  induction h with
  | refl => exact hinv
  | tail _ hstep ih => exact ih.step hstep

/-- **The ceiling holds** up to the cost of as many jobs as are in at once. -/
theorem Gate.Inv.bounded (hinv : g.Inv modulus ceiling capacity) (hmodulus : 0 < modulus) :
    ∃ chosen : List Nat, chosen.Sublist g.costs ∧ chosen.length ≤ capacity ∧
      g.total % modulus < ceiling + chosen.sum := by
  obtain ⟨chosen, hsub, ⟨base, hbase, htotal, hlength⟩ | ⟨hlength, hover⟩⟩ := hinv
  · have hread := Nat.mod_le g.total modulus
    exact ⟨chosen, hsub, by omega, by omega⟩
  · have hread := Nat.mod_lt g.total hmodulus
    exact ⟨chosen, hsub, hlength, by omega⟩

end AiDaemon.MeteredGate
