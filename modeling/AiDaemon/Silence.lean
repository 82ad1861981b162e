import AiDaemon.Turn

/-!
# Waiting out a silence (`session.rs`: `wait_for_event_with`)

A worker waits for its backend in slices, and a slice that brought nothing counts
as silence unless the request was paused.  The last slices are cut to what is left
of the silence, but never below a millisecond, so the sum can go past its end by
no more than that.

A script says what each slice brings.  One that ends before the wait does leaves
it without an answer, so every wait, however long, is one over its scripts.
-/

namespace AiDaemon.Silence

open Turn

/-! ### The source -/

def durationMax : Nat := 2 ^ 64 * 10 ^ 9 - 1

/-- `Duration`, in nanoseconds. -/
structure Duration where
  nanos : Nat
  le_max : nanos ≤ durationMax

namespace Duration

def zero : Duration := ⟨0, Nat.zero_le _⟩

def ofMillis (n : UInt32) : Duration where
  nanos := n.toNat * 10 ^ 6
  le_max := by
    have hlt := n.toNat_lt
    simp only [durationMax]
    omega

def min (d e : Duration) : Duration := if d.nanos ≤ e.nanos then d else e

def max (d e : Duration) : Duration := if d.nanos ≤ e.nanos then e else d

def saturatingSub (d e : Duration) : Duration := ⟨d.nanos - e.nanos, by have := d.le_max; omega⟩

def saturatingAdd (d e : Duration) : Duration :=
  ⟨Nat.min (d.nanos + e.nanos) durationMax, Nat.min_le_right _ _⟩

theorem nanos_min (d e : Duration) : (d.min e).nanos = Nat.min d.nanos e.nanos := by
  unfold min
  split <;> simp only [Nat.min_def] <;> split <;> omega

theorem nanos_max (d e : Duration) : (d.max e).nanos = Nat.max d.nanos e.nanos := by
  unfold max
  split <;> simp only [Nat.max_def] <;> split <;> omega

end Duration

/-- What one slice of waiting brings. `paused` is asked only after a slice that
    brought nothing. -/
inductive Slice (E : Type) where
  | event (event : E)
  | disconnected
  | quiet (paused : Bool)

/-- A slice that was waited, and whether `between_slices` ran after it. -/
structure Waited where
  length : Duration
  looked : Bool

/-- Where a wait stands after a script: its answer, if it has one, and the slices
    it waited. -/
structure Wait (E : Type) where
  result : Option (Except RecvTimeoutError E)
  slices : List Waited

section Source

variable {E : Type}

def Wait.after (w : Wait E) (slice : Duration) : Wait E := ⟨w.result, ⟨slice, true⟩ :: w.slices⟩

def Wait.ended (result : Except RecvTimeoutError E) (slice : Duration) : Wait E :=
  ⟨some result, [⟨slice, false⟩]⟩

variable (silence sliceLen : Duration)

/-- How long the next slice is. -/
def nextSlice (silentFor : Duration) : Duration :=
  (sliceLen.min (silence.saturatingSub silentFor)).max (.ofMillis 1)

/-- The loop of `wait_for_event_with`. -/
def waitFrom (silentFor : Duration) : List (Slice E) → Wait E
  | [] => ⟨none, []⟩
  | brings :: rest =>
    let slice := nextSlice silence sliceLen silentFor
    match brings with
    | .event event => .ended (.ok event) slice
    | .disconnected => .ended (.error .disconnected) slice
    | .quiet paused =>
      if !paused then
        let silentFor := silentFor.saturatingAdd slice
        if silence.nanos ≤ silentFor.nanos then .ended (.error .timeout) slice
        else (waitFrom silentFor rest).after slice
      else (waitFrom silentFor rest).after slice

def waitForEventWith (script : List (Slice E)) : Wait E := waitFrom silence sliceLen .zero script

end Source

/-! ### What is to be counted -/

section Spec

variable {E : Type}

def Slice.isQuiet : Slice E → Bool
  | .quiet _ => true
  | _ => false

/-- Quiet, and the backend was free to speak. -/
def Slice.isSilence : Slice E → Bool
  | .quiet false => true
  | _ => false

/-- What a slice adds to the silence. -/
def Slice.silent (length : Nat) : Slice E → Nat
  | .quiet false => length
  | _ => 0

/-- The unpaused silence of some slices. -/
def silentSum (script : List (Slice E)) (slices : List Waited) : Nat :=
  (List.zipWith (fun brings slice => brings.silent slice.length.nanos) script slices).sum

/-- The answer a slice calls for, given the silence up to its end. -/
def Slice.answer (silence sum : Nat) : Slice E → Option (Except RecvTimeoutError E)
  | .event e => some (.ok e)
  | .disconnected => some (.error .disconnected)
  | .quiet false => if silence ≤ sum then some (.error .timeout) else none
  | .quiet true => none

/-- The answer the slice at `k` calls for, after a silence of `spent`. -/
def answerAt (silence spent : Nat) (script : List (Slice E)) (slices : List Waited) (k : Nat) :
    Option (Except RecvTimeoutError E) :=
  script[k]?.bind fun brings =>
    brings.answer silence (spent + silentSum (script.take (k + 1)) (slices.take (k + 1)))

/-- A wait that starts after a silence of `spent` is answered at the first slice
    that calls for an answer, as that slice calls for; a silence that is the answer
    is over by a millisecond at most; and `between_slices` runs after every quiet
    slice but the last of such a silence. -/
structure Counted (silence spent : Nat) (script : List (Slice E)) (w : Wait E) : Prop where
  earlier : ∀ k, k + 1 < w.slices.length → answerAt silence spent script w.slices k = none
  answered : ∀ r, w.result = some r → ∃ k, w.slices.length = k + 1 ∧
    answerAt silence spent script w.slices k = some r
  waiting : w.result = none → w.slices.length = script.length ∧
    ∀ k, answerAt silence spent script w.slices k = none
  overshoot : w.result = some (.error .timeout) →
    silence ≤ spent + silentSum script w.slices ∧
      spent + silentSum script w.slices ≤ silence + 10 ^ 6
  looked : ∀ (k : Nat) (brings : Slice E) (slice : Waited), script[k]? = some brings →
    w.slices[k]? = some slice → (slice.looked = true ↔ brings.isQuiet = true ∧
      answerAt silence spent script w.slices k ≠ some (.error .timeout))

end Spec

/-! ### The count is right -/

section Count

variable {E : Type} {silence spent : Nat} {script : List (Slice E)} {w : Wait E}

theorem silentSum_cons (brings : Slice E) (script : List (Slice E)) (slice : Waited)
    (slices : List Waited) :
    silentSum (brings :: script) (slice :: slices) =
      brings.silent slice.length.nanos + silentSum script slices := by
  simp [silentSum]

theorem answerAt_zero (brings : Slice E) (slice : Waited) (slices : List Waited) :
    answerAt silence spent (brings :: script) (slice :: slices) 0 =
      brings.answer silence (spent + brings.silent slice.length.nanos) := by
  simp [answerAt, silentSum]

theorem answerAt_succ (brings : Slice E) (slice : Waited) (slices : List Waited) (k : Nat) :
    answerAt silence spent (brings :: script) (slice :: slices) (k + 1) =
      answerAt silence (spent + brings.silent slice.length.nanos) script slices k := by
  simp [answerAt, silentSum_cons, Nat.add_assoc]

/-- Silence is the answer that a quiet slice calls for, and only when it is over. -/
theorem answer_timeout {brings : Slice E} {sum : Nat} {r : Except RecvTimeoutError E}
    (h : brings.answer silence sum = some r) :
    (r = .error .timeout ↔ brings.isQuiet = true) ∧ (r = .error .timeout → silence ≤ sum) := by
  cases brings with
  | event e =>
    obtain rfl : .ok e = r := Option.some.inj h
    simp [Slice.isQuiet]
  | disconnected =>
    obtain rfl : .error .disconnected = r := Option.some.inj h
    simp [Slice.isQuiet]
  | quiet paused =>
    cases paused with
    | true => cases h
    | false =>
      simp only [Slice.answer] at h
      split at h
      · rename_i hover
        exact ⟨⟨fun _ => rfl, fun _ => (Option.some.inj h).symm⟩, fun _ => hover⟩
      · cases h

/-- A slice that calls for no answer goes before a wait. -/
theorem Counted.after {brings : Slice E} {slice : Duration} (hquiet : brings.isQuiet = true)
    (hnone : brings.answer silence (spent + brings.silent slice.nanos) = none)
    (h : Counted silence (spent + brings.silent slice.nanos) script w) :
    Counted silence spent (brings :: script) (w.after slice) := by
  constructor
  · intro k hk
    cases k with
    | zero => rw [Wait.after, answerAt_zero, hnone]
    | succ k =>
      rw [Wait.after, answerAt_succ]
      exact h.earlier k (by simpa [Wait.after] using hk)
  · intro r hr
    obtain ⟨k, hlength, hanswer⟩ := h.answered r hr
    refine ⟨k + 1, by simp [Wait.after, hlength], ?_⟩
    rw [Wait.after, answerAt_succ]
    exact hanswer
  · intro hr
    obtain ⟨hlength, hnever⟩ := h.waiting hr
    refine ⟨by simp [Wait.after, hlength], fun k => ?_⟩
    cases k with
    | zero => rw [Wait.after, answerAt_zero, hnone]
    | succ k => rw [Wait.after, answerAt_succ, hnever]
  · intro hr
    have hbounds := h.overshoot hr
    have hsum : silentSum (brings :: script) (w.after slice).slices =
        brings.silent slice.nanos + silentSum script w.slices := silentSum_cons ..
    rw [hsum]
    omega
  · intro k b s hb hs
    cases k with
    | zero =>
      simp only [Wait.after, List.getElem?_cons_zero, Option.some.injEq] at hb hs
      subst hb hs
      rw [Wait.after, answerAt_zero, hnone]
      simp [hquiet]
    | succ k =>
      rw [Wait.after, answerAt_succ]
      exact h.looked k b s (by simpa using hb) (by simpa [Wait.after] using hs)

/-- A slice that calls for an answer ends the wait. -/
theorem Counted.ended {brings : Slice E} {slice : Duration} {r : Except RecvTimeoutError E}
    (hanswer : brings.answer silence (spent + brings.silent slice.nanos) = some r)
    (hover : r = .error .timeout → spent + brings.silent slice.nanos ≤ silence + 10 ^ 6) :
    Counted silence spent (brings :: script) (Wait.ended r slice) := by
  have hfirst :
      answerAt silence spent (brings :: script) (Wait.ended r slice).slices 0 = some r := by
    rw [Wait.ended, answerAt_zero, hanswer]
  constructor
  · intro k hk
    simp [Wait.ended] at hk
  · intro r' hr
    obtain rfl : r = r' := Option.some.inj hr
    exact ⟨0, rfl, hfirst⟩
  · intro hr
    cases hr
  · intro hr
    obtain rfl : r = .error .timeout := Option.some.inj hr
    have hsum : silentSum (brings :: script) (Wait.ended (E := E) (.error .timeout) slice).slices =
        brings.silent slice.nanos := by
      simp [Wait.ended, silentSum]
    rw [hsum]
    refine ⟨?_, hover rfl⟩
    exact (answer_timeout hanswer).2 rfl
  · intro k b s hb hs
    cases k with
    | zero =>
      simp only [Wait.ended, List.getElem?_cons_zero, Option.some.injEq] at hb hs
      subst hb hs
      rw [hfirst]
      simp [← (answer_timeout hanswer).1]
    | succ k => simp [Wait.ended] at hs

variable {sliceLen silentFor : Duration} {silence : Duration}

theorem nextSlice_nanos (silence sliceLen silentFor : Duration) :
    (nextSlice silence sliceLen silentFor).nanos =
      max (min sliceLen.nanos (silence.nanos - silentFor.nanos)) (10 ^ 6) := by
  rw [nextSlice, Duration.nanos_max, Duration.nanos_min]
  rfl

/-- The sum that is compared is capped, which makes no difference to the comparison. -/
theorem reaches_iff (slice : Duration) :
    silence.nanos ≤ (silentFor.saturatingAdd slice).nanos ↔
      silence.nanos ≤ silentFor.nanos + slice.nanos := by
  have hmax := silence.le_max
  simp only [Duration.saturatingAdd, Nat.min_def]
  split <;> omega

/-- A wait whose silence is not over yet, or that has just begun. -/
theorem waitFrom_counted (script : List (Slice E))
    (hopen : silentFor.nanos < silence.nanos ∨ silentFor.nanos = 0) :
    Counted silence.nanos silentFor.nanos script (waitFrom silence sliceLen silentFor script) := by
  induction script generalizing silentFor with
  | nil =>
    constructor
    · intro k hk
      cases hk
    · intro r hr
      cases hr
    · intro _
      exact ⟨rfl, fun k => rfl⟩
    · intro hr
      cases hr
    · intro k b s hb
      cases hb
  | cons brings rest ih =>
    cases brings with
    | event e => exact Counted.ended rfl (fun h => by cases h)
    | disconnected => exact Counted.ended rfl (fun h => by cases h)
    | quiet paused =>
      cases paused with
      | true => exact Counted.after rfl rfl (ih hopen)
      | false =>
        simp only [waitFrom, Bool.not_false, if_true]
        have hslice := nextSlice_nanos silence sliceLen silentFor
        split
        · rename_i hreached
          rw [reaches_iff] at hreached
          apply Counted.ended
          · exact if_pos hreached
          · -- a slice is no longer than what is left, or a millisecond
            intro _
            simp only [Slice.silent, hslice]
            omega
        · rename_i hopen'
          have hsum : (silentFor.saturatingAdd (nextSlice silence sliceLen silentFor)).nanos =
              silentFor.nanos + (nextSlice silence sliceLen silentFor).nanos := by
            have hmax := silence.le_max
            rw [reaches_iff] at hopen'
            simp only [Duration.saturatingAdd, Nat.min_def]
            split <;> omega
          have hrest := ih (Or.inl (Nat.lt_of_not_le hopen'))
          rw [hsum] at hrest
          rw [reaches_iff] at hopen'
          exact Counted.after rfl (if_neg hopen') hrest

/-- Every unpaused slice is a millisecond of silence at least, so enough of them
    are an answer. -/
theorem waitFrom_ends {script : List (Slice E)} (hsome : 0 < script.countP Slice.isSilence)
    (henough : silence.nanos ≤ silentFor.nanos + 10 ^ 6 * script.countP Slice.isSilence) :
    (waitFrom silence sliceLen silentFor script).result.isSome = true := by
  induction script generalizing silentFor with
  | nil => cases hsome
  | cons brings rest ih =>
    cases brings with
    | event e => rfl
    | disconnected => rfl
    | quiet paused =>
      cases paused with
      | true =>
        simp only [List.countP_cons, Slice.isSilence] at hsome henough
        exact ih (by simpa using hsome) (by simpa using henough)
      | false =>
        simp only [List.countP_cons, Slice.isSilence, if_true] at henough
        simp only [waitFrom, Bool.not_false, if_true]
        have hslice := nextSlice_nanos silence sliceLen silentFor
        split
        · rfl
        · rename_i hopen
          have hmax := silence.le_max
          have hsum : silentFor.nanos + 10 ^ 6 ≤
              (silentFor.saturatingAdd (nextSlice silence sliceLen silentFor)).nanos := by
            rw [reaches_iff] at hopen
            simp only [Duration.saturatingAdd, Nat.min_def]
            split <;> omega
          exact ih (by omega) (by omega)

end Count

/-- **The timer counts unpaused silence and nothing else**, and it does end. -/
theorem silence_counted {E : Type} (silence sliceLen : Duration) (script : List (Slice E)) :
    Counted silence.nanos 0 script (waitForEventWith silence sliceLen script) ∧
      (0 < script.countP Slice.isSilence →
        silence.nanos ≤ 10 ^ 6 * script.countP Slice.isSilence →
        (waitForEventWith silence sliceLen script).result.isSome = true) := by
  constructor
  · have hopen : Duration.zero.nanos < silence.nanos ∨ Duration.zero.nanos = 0 := Or.inr rfl
    exact waitFrom_counted script hopen
  · intro hsome henough
    apply waitFrom_ends hsome
    simpa [Duration.zero] using henough

/-- Two quiet slices, ten that were paused, and two more make out eighty
    milliseconds in slices of twenty. -/
example : (waitForEventWith (E := Unit) (.ofMillis 80) (.ofMillis 20)
    ([.quiet false, .quiet false] ++ List.replicate 10 (.quiet true) ++
      List.replicate 5 (.quiet false))).slices.length = 14 := by
  decide

end AiDaemon.Silence
