import Mathlib.Tactic.Common
import Mathlib.Algebra.Order.BigOperators.Group.List
import Mathlib.Algebra.Order.Ring.Nat
import Mathlib.Data.UInt

/-!
# Checked runs

A run of a program with fixed-width numbers and indexed memory returns a value,
returns an error, or goes wrong: it leaves the range of a number or of a list
(`panic`), or it does not end (`spin`).  `Safe` says that it does not go wrong
and what holds of the value it returns; its rules follow the run step by step.
-/

namespace AiDaemon.Checked

/-- How a run ends without a value. -/
inductive Stop (ε : Type) where
  | error (e : ε)
  | panic
  | spin
deriving DecidableEq, Repr

abbrev Run (ε α : Type) := Except (Stop ε) α

variable {ε α β : Type}

def fail (e : ε) : Run ε α := .error (.error e)

/-! ### Operations with a check -/

/-- A natural number in a type of this many bits. -/
def fits (bits n : Nat) : Run ε Nat := if n < 2 ^ bits then .ok n else .error .panic

/-- A difference of natural numbers. -/
def minus (a b : Nat) : Run ε Nat := if b ≤ a then .ok (a - b) else .error .panic

/-- `xs[i]`. -/
def get (xs : List α) (i : Nat) : Run ε α :=
  match xs[i]? with
  | some x => .ok x
  | none => .error .panic

/-- `xs[i] = x`. -/
def put (xs : List α) (i : Nat) (x : α) : Run ε (List α) :=
  if i < xs.length then .ok (xs.set i x) else .error .panic

/-- `xs[from..to]`. -/
def slice (xs : List α) (start stop : Nat) : Run ε (List α) :=
  if start ≤ stop ∧ stop ≤ xs.length then .ok ((xs.drop start).take (stop - start))
  else .error .panic

@[simp] theorem bind_ok (a : α) (f : α → Run ε β) : ((.ok a : Run ε α) >>= f) = f a := rfl

@[simp] theorem bind_error (e : Stop ε) (f : α → Run ε β) :
    ((.error e : Run ε α) >>= f) = .error e := rfl

@[simp] theorem pure_eq (a : α) : (pure a : Run ε α) = .ok a := rfl

theorem fits_eq {bits n : Nat} (h : n < 2 ^ bits) : (fits bits n : Run ε Nat) = .ok n := if_pos h

theorem minus_eq {a b : Nat} (h : b ≤ a) : (minus a b : Run ε Nat) = .ok (a - b) := if_pos h

theorem get_eq {xs : List α} {i : Nat} {x : α} (h : xs[i]? = some x) :
    (get xs i : Run ε α) = .ok x := by
  rw [get, h]

theorem put_eq {xs : List α} {i : Nat} (h : i < xs.length) (x : α) :
    (put xs i x : Run ε (List α)) = .ok (xs.set i x) := if_pos h

theorem slice_eq {xs : List α} {start stop : Nat} (hle : start ≤ stop) (hlen : stop ≤ xs.length) :
    (slice xs start stop : Run ε (List α)) = .ok ((xs.drop start).take (stop - start)) :=
  if_pos ⟨hle, hlen⟩

theorem fits_eq_ok {bits n m : Nat} : (fits bits n : Run ε Nat) = .ok m ↔ n < 2 ^ bits ∧ n = m := by
  unfold fits
  split
  · rename_i h
    simp [h]
  · rename_i h
    simp [h]

theorem get_eq_ok {xs : List α} {i : Nat} {x : α} :
    (get xs i : Run ε α) = .ok x ↔ xs[i]? = some x := by
  unfold get
  cases xs[i]? <;> simp

/-! ### Runs that do not go wrong -/

/-- The run does not go wrong, and this holds of what it returns. -/
def Safe (x : Run ε α) (Q : α → Prop) : Prop :=
  match x with
  | .ok a => Q a
  | .error (.error _) => True
  | .error .panic => False
  | .error .spin => False

variable {x : Run ε α} {Q : α → Prop}

theorem safe_ok {a : α} (h : Q a) : Safe (.ok a : Run ε α) Q := h

theorem safe_fail (e : ε) : Safe (fail e : Run ε α) Q := trivial

theorem Safe.bind {f : α → Run ε β} {R : β → Prop} (h : Safe x Q) (hf : ∀ a, Q a → Safe (f a) R) :
    Safe (x >>= f) R := by
  match x, h with
  | .ok a, h => exact hf a h
  | .error (.error e), _ => exact trivial

theorem Safe.imp {R : α → Prop} (h : Safe x Q) (himp : ∀ a, Q a → R a) : Safe x R := by
  match x, h with
  | .ok a, h => exact himp a h
  | .error (.error e), _ => exact trivial

theorem not_safe_panic : ¬ Safe (.error .panic : Run ε α) Q := id

theorem Safe.of_ok {a : α} (h : Safe x Q) (ha : x = .ok a) : Q a := by
  rw [ha] at h
  exact h

theorem safe_iff : Safe x Q ↔ (∃ a, x = .ok a ∧ Q a) ∨ ∃ e, x = .error (.error e) := by
  match x with
  | .ok a => simp [Safe]
  | .error (.error e) => simp [Safe]
  | .error .panic => simp [Safe]
  | .error .spin => simp [Safe]

-- a run is followed by these rules only: what `Safe` unfolds to would evaluate it
attribute [irreducible] Safe

theorem safe_get {xs : List α} {i : Nat} (h : i < xs.length) :
    Safe (get xs i : Run ε α) fun a => xs[i]? = some a := by
  rw [get_eq (List.getElem?_eq_getElem h)]
  exact safe_ok (List.getElem?_eq_getElem h)

theorem safe_put {xs : List α} {i : Nat} (h : i < xs.length) (a : α) :
    Safe (put xs i a : Run ε (List α)) fun ys => ys = xs.set i a := by
  rw [put_eq h]
  exact safe_ok rfl

theorem safe_slice {xs : List α} {start stop : Nat} (hle : start ≤ stop) (hlen : stop ≤ xs.length) :
    Safe (slice xs start stop : Run ε (List α)) fun ys =>
    ys = (xs.drop start).take (stop - start) := by
  rw [slice_eq hle hlen]
  exact safe_ok rfl

end AiDaemon.Checked
