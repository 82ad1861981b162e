import Mathlib.Data.List.Basic
import Mathlib.Tactic.Common

/-!
# Computations that may be refused

What is known of the parts of an `Except` when the whole of it went through.
-/

namespace AiDaemon.Fallible

variable {ε α β : Type}

theorem bind_eq_ok {x : Except ε α} {f : α → Except ε β} {b : β} :
    (x >>= f) = .ok b ↔ ∃ a, x = .ok a ∧ f a = .ok b := by
  cases x with
  | ok a => simp [bind, Except.bind]
  | error e => simp [bind, Except.bind]

theorem eq_ok_of_toOption {x : Except ε α} {a : α} (h : x.toOption = some a) : x = .ok a := by
  cases x with
  | error e => cases h
  | ok b => exact congrArg Except.ok (Option.some.inj h)

theorem mapM_ok {f : α → Except ε β} {g : α → β} {l : List α}
    (h : ∀ a ∈ l, f a = .ok (g a)) : l.mapM f = .ok (l.map g) := by
  induction l with
  | nil => rfl
  | cons a l ih =>
    rw [List.mapM_cons, h a List.mem_cons_self,
      ih fun b hb => h b (List.mem_cons_of_mem _ hb)]
    rfl

/-- A row of checks that passed is one of which each passed. -/
theorem forM_eq_ok {check : α → Except ε Unit} {l : List α} (h : l.forM check = .ok ()) :
    ∀ a ∈ l, check a = .ok () := by
  induction l with
  | nil => exact fun _ hmem => absurd hmem List.not_mem_nil
  | cons a l ih =>
    have hcons : (a :: l).forM check = (check a >>= fun _ => l.forM check) := rfl
    rw [hcons] at h
    obtain ⟨_, hhead, htail⟩ := bind_eq_ok.mp h
    exact List.forall_mem_cons.mpr ⟨hhead, ih htail⟩

end AiDaemon.Fallible
