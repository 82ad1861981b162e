import Mathlib.Algebra.Order.Field.Basic
import Mathlib.Data.List.Pairwise
import Mathlib.Tactic.Linarith
import Mathlib.Tactic.Positivity
import Mathlib.Tactic.Ring

/-!
# Token buckets

A bucket holds a number of tokens, is refilled at a constant rate up to its
capacity and gives tokens away while it has them.  Levels and times are elements
of an ordered field, so nothing is rounded.

What a bucket can give away in the window from `a` to `a + T` is bounded by its
`headroom` there.  Time passing does not raise the headroom and a take inside
the window lowers it by what was taken (`headroom_take`), so however takes and
other events are mixed, what is taken in the window is at most the headroom at
the start, which is at most the capacity and a refill for `T` (`headroom_le`).
-/

namespace AiDaemon.TokenBucket

variable {K : Type} [Field K] [LinearOrder K] [IsStrictOrderedRing K]

/-- A bucket, never overdrawn and never over its capacity. -/
structure Bucket (K : Type) [Field K] [LinearOrder K] [IsStrictOrderedRing K] where
  tokens : K
  capacity : K
  perSecond : K
  last : K
  tokens_nonneg : 0 ≤ tokens
  tokens_le : tokens ≤ capacity
  perSecond_nonneg : 0 ≤ perSecond

/-- An attempt to take an amount at a time. -/
structure Take (K : Type) where
  now : K
  amount : Nat

namespace Bucket

/-- Brought up to date. A clock that went back counts as standing still. -/
def refill (b : Bucket K) (now : K) : Bucket K where
  tokens := min (b.tokens + max 0 (now - b.last) * b.perSecond) b.capacity
  capacity := b.capacity
  perSecond := b.perSecond
  last := now
  tokens_nonneg := by
    have := b.perSecond_nonneg
    have := b.tokens_nonneg
    apply le_min
    · positivity
    · exact b.tokens_nonneg.trans b.tokens_le
  tokens_le := min_le_right _ _
  perSecond_nonneg := b.perSecond_nonneg

@[simp] theorem refill_capacity (b : Bucket K) (now : K) :
    (b.refill now).capacity = b.capacity := rfl

@[simp] theorem refill_perSecond (b : Bucket K) (now : K) :
    (b.refill now).perSecond = b.perSecond := rfl

@[simp] theorem refill_last (b : Bucket K) (now : K) : (b.refill now).last = now := rfl

def spend (b : Bucket K) (n : Nat) (h : (n : K) ≤ b.tokens) : Bucket K where
  tokens := b.tokens - n
  capacity := b.capacity
  perSecond := b.perSecond
  last := b.last
  tokens_nonneg := sub_nonneg.mpr h
  tokens_le := (sub_le_self _ (Nat.cast_nonneg n)).trans b.tokens_le
  perSecond_nonneg := b.perSecond_nonneg

/-- Refill, then give `n` away or refuse. -/
def take (b : Bucket K) (now : K) (n : Nat) : Bucket K × Bool :=
  if h : (n : K) ≤ (b.refill now).tokens then ((b.refill now).spend n h, true)
  else (b.refill now, false)

theorem take_accepted (b : Bucket K) (now : K) (n : Nat) :
    (b.take now n).2 = true ↔ (n : K) ≤ (b.refill now).tokens := by
  unfold take
  split
  · rename_i h
    simp [h]
  · rename_i h
    simp [h]

@[simp] theorem take_capacity (b : Bucket K) (now : K) (n : Nat) :
    (b.take now n).1.capacity = b.capacity := by
  unfold take
  split <;> rfl

@[simp] theorem take_perSecond (b : Bucket K) (now : K) (n : Nat) :
    (b.take now n).1.perSecond = b.perSecond := by
  unfold take
  split <;> rfl

@[simp] theorem take_last (b : Bucket K) (now : K) (n : Nat) : (b.take now n).1.last = now := by
  unfold take
  split <;> rfl

/-! ### What a bucket can give in a window -/

/-- An upper bound on what is given away from now on between `a` and `a + T`. -/
def headroom (a T : K) (b : Bucket K) : K :=
  if b.last < a then b.capacity + b.perSecond * T
  else if b.last ≤ a + T then b.tokens + b.perSecond * (a + T - b.last)
  else 0

section Window

variable {a T : K} (hT : 0 ≤ T)

include hT

theorem headroom_nonneg (b : Bucket K) : 0 ≤ headroom a T b := by
  have hrate := b.perSecond_nonneg
  have htokens := b.tokens_nonneg
  unfold headroom
  split
  · have hcapacity := htokens.trans b.tokens_le
    positivity
  · split
    · rename_i hlast
      have := mul_nonneg hrate (sub_nonneg.mpr hlast)
      linarith
    · exact le_rfl

theorem headroom_le (b : Bucket K) : headroom a T b ≤ b.capacity + b.perSecond * T := by
  have hrate := b.perSecond_nonneg
  have hcapacity := b.tokens_nonneg.trans b.tokens_le
  unfold headroom
  split
  · exact le_rfl
  · rename_i hlast
    split
    · apply add_le_add b.tokens_le
      apply mul_le_mul_of_nonneg_left _ hrate
      linarith
    · positivity

theorem headroom_refill (b : Bucket K) {now : K} (hnow : b.last ≤ now) :
    headroom a T (b.refill now) ≤ headroom a T b := by
  by_cases hbefore : b.last < a
  · calc headroom a T (b.refill now)
        ≤ b.capacity + b.perSecond * T := headroom_le hT (b.refill now)
      _ = headroom a T b := (if_pos hbefore).symm
  · have hafter : ¬ now < a := by
      intro h
      exact hbefore (hnow.trans_lt h)
    by_cases hwithin : now ≤ a + T
    · have htokens : (b.refill now).tokens ≤ b.tokens + (now - b.last) * b.perSecond := by
        have helapsed : max 0 (now - b.last) = now - b.last :=
          max_eq_right (sub_nonneg.mpr hnow)
        calc (b.refill now).tokens
            ≤ b.tokens + max 0 (now - b.last) * b.perSecond := min_le_left _ _
          _ = b.tokens + (now - b.last) * b.perSecond := by rw [helapsed]
      have hthen : headroom a T b = b.tokens + b.perSecond * (a + T - b.last) := by
        rw [headroom, if_neg hbefore, if_pos (hnow.trans hwithin)]
      have hnext : headroom a T (b.refill now) =
          (b.refill now).tokens + b.perSecond * (a + T - now) := by
        simp [headroom, hafter, hwithin]
      rw [hthen, hnext]
      linarith [mul_comm (now - b.last) b.perSecond, mul_sub b.perSecond (a + T) b.last,
        mul_sub b.perSecond (a + T) now, mul_sub b.perSecond now b.last]
    · have hnext : headroom a T (b.refill now) = 0 := by
        simp [headroom, hafter, hwithin]
      rw [hnext]
      exact headroom_nonneg hT b

omit hT in
theorem headroom_spend (b : Bucket K) (n : Nat) (h : (n : K) ≤ b.tokens) :
    (if a ≤ b.last ∧ b.last ≤ a + T then (n : K) else 0) + headroom a T (b.spend n h) =
      headroom a T b := by
  unfold headroom
  by_cases hbefore : b.last < a
  · have hout : ¬ (a ≤ b.last ∧ b.last ≤ a + T) := by
      rintro ⟨hfrom, -⟩
      exact absurd hbefore (not_lt.mpr hfrom)
    simp [spend, hbefore, hout]
  · by_cases hwithin : b.last ≤ a + T
    · simp only [spend, hbefore, hwithin, not_lt.mp hbefore, and_self, if_true, if_false]
      ring
    · simp [spend, hbefore, hwithin]

/-- What a take inside the window gives away is gone from the headroom. -/
theorem headroom_take (b : Bucket K) {now : K} (hnow : b.last ≤ now) (n : Nat) :
    (if (b.take now n).2 = true ∧ a ≤ now ∧ now ≤ a + T then (n : K) else 0) +
      headroom a T (b.take now n).1 ≤ headroom a T b := by
  have hrefill := headroom_refill (a := a) hT b hnow
  unfold take
  split
  · rename_i h
    have hspend := headroom_spend (a := a) (T := T) (b.refill now) n h
    simp only [true_and]
    calc (if a ≤ now ∧ now ≤ a + T then (n : K) else 0) +
          headroom a T ((b.refill now).spend n h)
        = headroom a T (b.refill now) := hspend
      _ ≤ headroom a T b := hrefill
  · simpa using hrefill

end Window

/-! ### Sequences of takes -/

/-- The bucket after some takes. -/
def after : Bucket K → List (Take K) → Bucket K
  | b, [] => b
  | b, t :: ts => after (b.take t.now t.amount).1 ts

/-- The takes that are granted. -/
def accepted : Bucket K → List (Take K) → List (Take K)
  | _, [] => []
  | b, t :: ts =>
    if (b.take t.now t.amount).2 = true then t :: accepted (b.take t.now t.amount).1 ts
    else accepted (b.take t.now t.amount).1 ts

/-- How much of some takes falls in the window from `a` to `a + T`. -/
def amountIn (a T : K) (ts : List (Take K)) : K :=
  (ts.map fun t => if a ≤ t.now ∧ t.now ≤ a + T then (t.amount : K) else 0).sum

/-- The level at a time, refilled all along from a level at an earlier one and
    lowered by what was granted in between. -/
def levelGiven (capacity perSecond : K) : K → K → List (Take K) → K → K
  | level, last, [], now => min (level + (now - last) * perSecond) capacity
  | level, last, t :: ts, now =>
    levelGiven capacity perSecond
      (min (level + (t.now - last) * perSecond) capacity - t.amount) t.now ts now

@[simp] theorem after_capacity (b : Bucket K) (ts : List (Take K)) :
    (b.after ts).capacity = b.capacity := by
  induction ts generalizing b with
  | nil => rfl
  | cons t ts ih => rw [after, ih, take_capacity]

theorem accepted_sublist (b : Bucket K) (ts : List (Take K)) : (b.accepted ts).Sublist ts := by
  induction ts generalizing b with
  | nil => exact List.Sublist.slnil
  | cons t ts ih =>
    unfold accepted
    split
    · exact (ih _).cons_cons t
    · exact (ih _).cons t

theorem take_refused_level (b : Bucket K) {now : K} {n : Nat} (h : (b.take now n).2 = false) :
    (b.take now n).1 = b.refill now := by
  unfold take at h ⊢
  split at h
  · cases h
  · rw [dif_neg ‹_›]

theorem take_accepted_level (b : Bucket K) {now : K} {n : Nat} (h : (b.take now n).2 = true) :
    (b.take now n).1.tokens = (b.refill now).tokens - n := by
  have henough := (b.take_accepted now n).mp h
  rw [take, dif_pos henough]
  rfl

theorem refill_tokens (b : Bucket K) {now : K} (hnow : b.last ≤ now) :
    (b.refill now).tokens = min (b.tokens + (now - b.last) * b.perSecond) b.capacity := by
  have helapsed : max 0 (now - b.last) = now - b.last := max_eq_right (sub_nonneg.mpr hnow)
  simp only [refill, helapsed]

/-- Refilling on the way makes no difference to the level. -/
theorem min_refill {capacity perSecond level last mid now : K} (hrate : 0 ≤ perSecond)
    (hmid : mid ≤ now) :
    min (min (level + (mid - last) * perSecond) capacity + (now - mid) * perSecond) capacity =
      min (level + (now - last) * perSecond) capacity := by
  have hgain : 0 ≤ (now - mid) * perSecond := mul_nonneg (sub_nonneg.mpr hmid) hrate
  have hsum : level + (mid - last) * perSecond + (now - mid) * perSecond =
      level + (now - last) * perSecond := by ring
  rw [← min_add_add_right, hsum, min_assoc]
  congr 1
  exact min_eq_right (le_add_of_nonneg_right hgain)

theorem levelGiven_refill {capacity perSecond level last mid now : K} (hrate : 0 ≤ perSecond)
    {history : List (Take K)} (hlater : ∀ t ∈ history, mid ≤ t.now) (hmid : mid ≤ now) :
    levelGiven capacity perSecond (min (level + (mid - last) * perSecond) capacity) mid history
        now =
      levelGiven capacity perSecond level last history now := by
  cases history with
  | nil => exact min_refill hrate hmid
  | cons t ts =>
    have hfirst := hlater t List.mem_cons_self
    simp only [levelGiven]
    rw [min_refill hrate hfirst]

/-- The level depends on the takes that were granted alone. -/
theorem levelGiven_accepted (b : Bucket K) (ts : List (Take K)) {now : K}
    (htimes : (b.last :: (ts.map Take.now ++ [now])).Pairwise (· ≤ ·)) :
    levelGiven b.capacity b.perSecond b.tokens b.last (b.accepted ts) now =
      ((b.after ts).refill now).tokens := by
  induction ts generalizing b with
  | nil =>
    have hnow : b.last ≤ now := by simpa using htimes
    exact (b.refill_tokens hnow).symm
  | cons t ts ih =>
    obtain ⟨hfirst, hsorted⟩ := List.pairwise_cons.mp htimes
    have ht : b.last ≤ t.now := hfirst t.now (by simp)
    have hrest := ih (b.take t.now t.amount).1 (by simpa using hsorted)
    rw [take_capacity, take_perSecond, take_last] at hrest
    unfold accepted
    split
    · rename_i hgranted
      rw [after, ← hrest, levelGiven, take_accepted_level b hgranted, b.refill_tokens ht]
    · rename_i hrefused
      have hlevel := b.take_refused_level (eq_false_of_ne_true hrefused)
      have hlater : ∀ t' ∈ (b.take t.now t.amount).1.accepted ts, t.now ≤ t'.now := by
        intro t' hmem
        apply (List.pairwise_cons.mp hsorted).1
        have hin := (accepted_sublist _ ts).subset hmem
        exact List.mem_append_left _ (List.mem_map_of_mem hin)
      have hend : t.now ≤ now := (List.pairwise_cons.mp hsorted).1 now (by simp)
      rw [after, ← hrest, hlevel, b.refill_tokens ht]
      rw [hlevel] at hlater
      exact (levelGiven_refill b.perSecond_nonneg hlater hend).symm

/-- What is granted in a window is at most the headroom at the start. -/
theorem accepted_le_headroom {a T : K} (hT : 0 ≤ T) (b : Bucket K) (ts : List (Take K))
    (htimes : (b.last :: ts.map Take.now).Pairwise (· ≤ ·)) :
    amountIn a T (b.accepted ts) ≤ headroom a T b := by
  induction ts generalizing b with
  | nil => exact headroom_nonneg hT b
  | cons t ts ih =>
    obtain ⟨hfirst, hsorted⟩ := List.pairwise_cons.mp htimes
    have hstep := headroom_take (a := a) hT b (hfirst t.now (by simp)) t.amount
    have hrest : amountIn a T ((b.take t.now t.amount).1.accepted ts) ≤ _ :=
      ih (b.take t.now t.amount).1 (by simpa using hsorted)
    unfold accepted
    split
    · rename_i hgranted
      simp only [hgranted, true_and] at hstep
      simp only [amountIn, List.map_cons, List.sum_cons] at hrest ⊢
      linarith
    · rename_i hrefused
      simp only [hrefused, Bool.false_eq_true, false_and, if_false, zero_add] at hstep
      exact hrest.trans hstep

end Bucket

end AiDaemon.TokenBucket
