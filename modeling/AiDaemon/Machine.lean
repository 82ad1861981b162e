import Mathlib.Data.List.Basic
import Mathlib.Tactic.Common
import Mathlib.Algebra.Order.BigOperators.Group.List
import Mathlib.Algebra.Order.Ring.Nat
import Mathlib.Data.UInt

/-!
# Traced machine arithmetic

Fixed-width arithmetic fails quietly: a sum wraps, a saturating difference
stops at zero, and the program goes on with a wrong number.  A model over `Nat`
that drops the width proves nothing about such code, and a model that only
returns the wrapped number cannot say that the wrap never happened.

`Traced α` keeps both.  It pairs the value the machine computes (wrapping and
saturating exactly as the machine does) with the list of operations executed on
the way, operands included.  `Traced.Exact` says that every one of them gave the
mathematical result, and it composes over `bind`.
-/

namespace AiDaemon.Machine

/-- An executed machine operation with its operands. `add w` is addition in a
    `w`-bit unsigned type, which wraps; `satSub` is a saturating difference. -/
inductive ArithOp where
  | add (w a b : Nat)
  | satSub (a b : Nat)
deriving DecidableEq, Repr

/-- The operation returned the mathematical result: no wrap, no saturation. -/
def ArithOp.Exact : ArithOp → Prop
  | .add w a b => a + b < 2 ^ w
  | .satSub a b => b ≤ a

instance : DecidablePred ArithOp.Exact := fun op =>
  match op with
  | .add w a b => inferInstanceAs (Decidable (a + b < 2 ^ w))
  | .satSub a b => inferInstanceAs (Decidable (b ≤ a))

/-- A computed value together with the machine operations executed for it. -/
structure Traced (α : Type) where
  val : α
  ops : List ArithOp

variable {α β : Type}

namespace Traced

instance : Monad Traced where
  pure a := ⟨a, []⟩
  bind m f := ⟨(f m.val).val, m.ops ++ (f m.val).ops⟩

@[simp] theorem val_pure (a : α) : (pure a : Traced α).val = a := rfl

@[simp] theorem ops_pure (a : α) : (pure a : Traced α).ops = [] := rfl

@[simp] theorem val_bind (m : Traced α) (f : α → Traced β) :
    (m >>= f).val = (f m.val).val := rfl

@[simp] theorem ops_bind (m : Traced α) (f : α → Traced β) :
    (m >>= f).ops = m.ops ++ (f m.val).ops := rfl

/-- Every operation executed so far was exact. -/
def Exact (m : Traced α) : Prop := ∀ op ∈ m.ops, op.Exact

instance (m : Traced α) : Decidable m.Exact := by unfold Exact; infer_instance

@[simp] theorem exact_pure (a : α) : (pure a : Traced α).Exact := by
  intro op hop
  cases hop

@[simp] theorem exact_bind (m : Traced α) (f : α → Traced β) :
    (m >>= f).Exact ↔ m.Exact ∧ (f m.val).Exact := by
  simp only [Exact, ops_bind, List.mem_append]
  constructor
  · intro h
    exact ⟨fun op hop => h op (Or.inl hop), fun op hop => h op (Or.inr hop)⟩
  · rintro ⟨hm, hf⟩ op (hop | hop)
    · exact hm op hop
    · exact hf op hop

end Traced

/-- Wrapping addition in a `w`-bit unsigned type. -/
def add (w a b : Nat) : Traced Nat := ⟨(a + b) % 2 ^ w, [.add w a b]⟩

/-- `saturating_sub`: truncated at zero. -/
def satSub (a b : Nat) : Traced Nat := ⟨a - b, [.satSub a b]⟩

@[simp] theorem satSub_val (a b : Nat) : (satSub a b).val = a - b := rfl

@[simp] theorem satSub_exact {a b : Nat} : (satSub a b).Exact ↔ b ≤ a := by
  simp [Traced.Exact, satSub, ArithOp.Exact]

@[simp] theorem add_exact {w a b : Nat} : (add w a b).Exact ↔ a + b < 2 ^ w := by
  simp [Traced.Exact, add, ArithOp.Exact]

/-- Where the trace shows no wrap, machine addition is addition. -/
theorem add_val {w a b : Nat} (h : a + b < 2 ^ w) : (add w a b).val = a + b :=
  Nat.mod_eq_of_lt h

end AiDaemon.Machine
