import Mathlib.Tactic.Common

/-!
# Loops over a stream

A relay reads items off a stream until one of them ends it, and writes as it
goes.  Before every read it may do something of its own.  It ends by going on
after its loop (`broke`), by returning from inside it, or because a read failed.

Whatever a relay has gone past is behind it: `run_append` splits a run after any
items it goes past, and `goes_induction` is the induction rule for those.
-/

namespace AiDaemon.Relay

/-- What the loop does after an item. -/
inductive Next (σ ρ : Type) where
  | go (state : σ)
  | break (state : σ)
  | return (result : ρ)

/-- How the stream ends when no item ends the loop. -/
inductive Ending (ε : Type) where
  | closed
  | failed (error : ε)
deriving DecidableEq

inductive Exit (σ ρ ε : Type) where
  | broke (state : σ)
  | returned (result : ρ)
  | failed (error : ε)

/-- The end of a loop that has got to the end of its stream. -/
def Ending.exit {σ ρ ε : Type} (s : σ) : Ending ε → Exit σ ρ ε
  | .closed => .broke s
  | .failed e => .failed e

/-- A loop on states `σ` that reads items `α`, writes pieces `ω`, may return a
    `ρ`, and stops where a read gives an `ε`. -/
structure Loop (σ α ω ρ ε : Type) where
  /-- Before each read. -/
  enter : σ → List ω × σ
  step : σ → α → List ω × Next σ ρ

variable {σ α ω ρ ε : Type} (loop : Loop σ α ω ρ ε)

namespace Loop

/-- What is written, and how it ends. The end of the stream breaks the loop. -/
def run : σ → List α → Ending ε → List ω × Exit σ ρ ε
  | s, [], .closed => ((loop.enter s).1, .broke (loop.enter s).2)
  | s, [], .failed e => ((loop.enter s).1, .failed e)
  | s, a :: as, ending =>
    match loop.step (loop.enter s).2 a with
    | (out, .go s') =>
      ((loop.enter s).1 ++ out ++ (run s' as ending).1, (run s' as ending).2)
    | (out, .break s') => ((loop.enter s).1 ++ out, .broke s')
    | (out, .return r) => ((loop.enter s).1 ++ out, .returned r)

/-- What is written and the state after items that the loop goes past. -/
def goes : σ → List α → Option (List ω × σ)
  | s, [] => some ([], s)
  | s, a :: as =>
    match loop.step (loop.enter s).2 a with
    | (out, .go s') => (goes s' as).map fun r => ((loop.enter s).1 ++ out ++ r.1, r.2)
    | (_, .break _) | (_, .return _) => none

variable {loop}

theorem run_append {s s' : σ} {as : List α} {out : List ω} (h : loop.goes s as = some (out, s'))
    (rest : List α) (ending : Ending ε) :
    loop.run s (as ++ rest) ending =
      (out ++ (loop.run s' rest ending).1, (loop.run s' rest ending).2) := by
  induction as generalizing s out with
  | nil =>
    cases h
    rfl
  | cons a as ih =>
    simp only [goes] at h
    split at h
    · rename_i written t hstep
      obtain ⟨⟨out', t'⟩, hgoes, heq⟩ := Option.map_eq_some_iff.mp h
      cases heq
      simp only [List.cons_append, run, hstep, ih hgoes, List.append_assoc]
    · cases h
    · cases h

/-- A run over items all of which the loop goes past ends with the stream. -/
theorem run_of_goes {s s' : σ} {as : List α} {out : List ω} (h : loop.goes s as = some (out, s'))
    (ending : Ending ε) :
    loop.run s as ending = (out ++ (loop.enter s').1, ending.exit (loop.enter s').2) := by
  have hrun := run_append h [] ending
  rw [List.append_nil] at hrun
  rw [hrun]
  cases ending <;> rfl

theorem run_break {s s' : σ} {a : α} {out : List ω}
    (h : loop.step (loop.enter s).2 a = (out, .break s')) (rest : List α) (ending : Ending ε) :
    loop.run s (a :: rest) ending = ((loop.enter s).1 ++ out, .broke s') := by
  simp only [run, h]

/-- What every step keeps holds of what is written and of the state it leads
    to. -/
theorem goes_induction {P : List α → List ω → σ → Prop} {s : σ} (hnil : P [] [] s)
    (hstep : ∀ as out t a written t', P as out t →
      loop.step (loop.enter t).2 a = (written, .go t') →
      P (as ++ [a]) (out ++ (loop.enter t).1 ++ written) t') {as : List α} {out : List ω} {s' : σ}
    (h : loop.goes s as = some (out, s')) : P as out s' := by
  -- The induction is on what is still to come, with what has been gone past.
  suffices hgo : ∀ (rest past : List α) (written : List ω) (t : σ), P past written t →
      ∀ out s', loop.goes t rest = some (out, s') → P (past ++ rest) (written ++ out) s' by
    simpa using hgo as [] [] s hnil out s' h
  intro rest
  induction rest with
  | nil =>
    intro past written t hP out s' hgoes
    cases hgoes
    simpa using hP
  | cons a rest ih =>
    intro past written t hP out s' hgoes
    simp only [goes] at hgoes
    split at hgoes
    · rename_i more t' hnext
      obtain ⟨⟨out', s''⟩, hrest, heq⟩ := Option.map_eq_some_iff.mp hgoes
      cases heq
      have hlater := ih _ _ _ (hstep _ _ _ _ _ _ hP hnext) _ _ hrest
      simpa using hlater
    · cases hgoes
    · cases hgoes

/-- A loop goes past items each of which it goes past. -/
theorem goes_of_forall {s : σ} {as : List α}
    (h : ∀ t, ∀ a ∈ as, ∃ out t', loop.step t a = (out, .go t')) :
    ∃ out s', loop.goes s as = some (out, s') := by
  induction as generalizing s with
  | nil => exact ⟨[], s, rfl⟩
  | cons a as ih =>
    obtain ⟨written, t', hnext⟩ := h (loop.enter s).2 a List.mem_cons_self
    obtain ⟨out, s', hgoes⟩ := ih (fun t b hb => h t b (List.mem_cons_of_mem _ hb)) (s := t')
    refine ⟨(loop.enter s).1 ++ written ++ out, s', ?_⟩
    simp only [goes, hnext, hgoes, Option.map_some]

end Loop

/-- A list has a first item of a kind, or none. -/
theorem first_or_none (p : α → Bool) (as : List α) :
    (∀ a ∈ as, p a = false) ∨
      ∃ before a rest, as = before ++ a :: rest ∧ (∀ b ∈ before, p b = false) ∧ p a = true := by
  cases hfind : as.find? p with
  | none =>
    refine Or.inl ?_
    intro a ha
    simpa using List.find?_eq_none.mp hfind a ha
  | some a =>
    obtain ⟨ha, before, rest, rfl, hbefore⟩ := List.find?_eq_some_iff_append.mp hfind
    refine Or.inr ⟨before, a, rest, rfl, ?_, ha⟩
    intro b hb
    simpa using hbefore b hb

end AiDaemon.Relay
