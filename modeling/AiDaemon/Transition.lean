import Mathlib.Tactic.Common

/-!
# Guarded transition systems

A system of concurrent parties is a step function on one global state: `none`
means that the action is not enabled there.  An interleaving is a list of
actions, whichever party each belongs to, and `runs` follows it.

Some properties hold only of the runs whose every step meets a condition on the
state it is taken in.  `along` says that of a run, and `runs_invariant_along` is
the induction rule for it.  Where a condition is exactly what a step needs to
keep the property, so it is for whole runs (`along_keeps_iff`).
-/

namespace AiDaemon.Transition

variable {σ α : Type} (step : σ → α → Option σ)

/-- The state an interleaving ends in, if every action was enabled. -/
def runs : σ → List α → Option σ
  | s, [] => some s
  | s, a :: as =>
    match step s a with
    | some s' => runs s' as
    | none => none

theorem runs_append (s : σ) (as bs : List α) :
    runs step s (as ++ bs) = (runs step s as).bind fun t => runs step t bs := by
  induction as generalizing s with
  | nil => rfl
  | cons a as ih =>
    simp only [List.cons_append, runs]
    cases step s a with
    | none => rfl
    | some s' => exact ih s'

/-- Every step of the run meets `C` in the state it is taken in. -/
def along (C : σ → α → Prop) : σ → List α → Prop
  | _, [] => True
  | s, a :: as =>
    C s a ∧ match step s a with
      | some s' => along C s' as
      | none => True

instance decidableAlong (C : σ → α → Prop) [∀ s a, Decidable (C s a)] :
    ∀ s as, Decidable (along step C s as)
  | _, [] => inferInstanceAs (Decidable True)
  | s, a :: as =>
    match hnext : step s a with
    | some s' =>
      have := decidableAlong C s' as
      decidable_of_iff (C s a ∧ along step C s' as) (by simp [along, hnext])
    | none => decidable_of_iff (C s a) (by simp [along, hnext])

/-- An invariant that every enabled step meeting `C` preserves holds at the end
    of every run whose steps all meet `C`. -/
theorem runs_invariant_along {P : σ → Prop} {C : σ → α → Prop}
    (hstep : ∀ s a s', P s → C s a → step s a = some s' → P s') {s t : σ} {as : List α}
    (hs : P s) (hC : along step C s as) (hrun : runs step s as = some t) : P t := by
  induction as generalizing s with
  | nil =>
    simp only [runs, Option.some.injEq] at hrun
    subst hrun
    exact hs
  | cons a as ih =>
    obtain ⟨hhead, htail⟩ := hC
    cases hnext : step s a with
    | none => simp [runs, hnext] at hrun
    | some s' =>
      simp only [hnext] at htail
      simp only [runs, hnext] at hrun
      exact ih (hstep s a s' hs hhead hnext) htail hrun

/-- An invariant that every enabled step preserves holds at the end of every
    run. -/
theorem runs_invariant {P : σ → Prop} (hstep : ∀ s a s', P s → step s a = some s' → P s')
    {s t : σ} {as : List α} (hs : P s) (hrun : runs step s as = some t) : P t := by
  refine runs_invariant_along step (P := P) (C := fun _ _ => True)
    (fun s a s' hP _ hnext => hstep s a s' hP hnext) hs ?_ hrun
  clear hrun
  induction as generalizing s with
  | nil => trivial
  | cons a as ih =>
    refine ⟨trivial, ?_⟩
    cases hnext : step s a with
    | none => trivial
    | some s' => exact ih (hstep s a s' hs hnext)

/-- What holds of no actions and of each action more holds of a run and where it ends. -/
theorem runs_induction {P : List α → σ → Prop} {s : σ} (hnil : P [] s)
    (hsnoc : ∀ as t a t', P as t → step t a = some t' → P (as ++ [a]) t') {as : List α} {t : σ}
    (hrun : runs step s as = some t) : P as t := by
  -- The induction is on the actions still to come.
  suffices hgo : ∀ (rest past : List α) (u : σ), P past u → runs step u rest = some t →
      P (past ++ rest) t by
    simpa using hgo as [] s hnil hrun
  intro rest
  induction rest with
  | nil =>
    intro past u hP hrest
    cases hrest
    simpa using hP
  | cons a rest ih =>
    intro past u hP hrest
    cases hnext : step u a with
    | none => simp [runs, hnext] at hrest
    | some u' =>
      simp only [runs, hnext] at hrest
      have hmore := ih (past ++ [a]) u' (hsnoc past u a u' hP hnext) hrest
      rwa [List.append_assoc, List.singleton_append] at hmore

/-- A condition on the actions alone holds along a run when it holds of each. -/
theorem along_of_forall {D : α → Prop} {s : σ} {as : List α} (h : ∀ a ∈ as, D a) :
    along step (fun _ a => D a) s as := by
  induction as generalizing s with
  | nil => trivial
  | cons a as ih =>
    refine ⟨h a List.mem_cons_self, ?_⟩
    cases step s a with
    | none => trivial
    | some s' => exact ih fun b hb => h b (List.mem_cons_of_mem _ hb)

theorem along_and {C : σ → α → Prop} {D : α → Prop} {s : σ} {as : List α} (hC : along step C s as)
    (hD : ∀ a ∈ as, D a) : along step (fun s a => C s a ∧ D a) s as := by
  induction as generalizing s with
  | nil => trivial
  | cons a as ih =>
    obtain ⟨hhead, htail⟩ := hC
    refine ⟨⟨hhead, hD a List.mem_cons_self⟩, ?_⟩
    cases hnext : step s a with
    | none => trivial
    | some s' =>
      simp only [hnext] at htail
      exact ih htail fun b hb => hD b (List.mem_cons_of_mem _ hb)

/-- What counts the actions of one kind, step by step, counts them in a run. -/
theorem runs_count {m : σ → Nat} {p : α → Bool}
    (hstep : ∀ s a s', step s a = some s' → m s' = m s + if p a then 1 else 0) {s t : σ}
    {as : List α} (hrun : runs step s as = some t) : m t = m s + as.countP p := by
  induction as generalizing s with
  | nil =>
    cases hrun
    rfl
  | cons a as ih =>
    cases hnext : step s a with
    | none => simp [runs, hnext] at hrun
    | some s' =>
      simp only [runs, hnext] at hrun
      rw [ih hrun, hstep s a s' hnext, List.countP_cons]
      omega

/-- Whatever the step leads to has `P`. -/
def Keeps (P : σ → Prop) (s : σ) (a : α) : Prop := ∀ s', step s a = some s' → P s'

instance (P : σ → Prop) [DecidablePred P] (s : σ) (a : α) : Decidable (Keeps step P s a) :=
  match hnext : step s a with
  | some s' => decidable_of_iff (P s') (by simp [Keeps, hnext])
  | none => isTrue (by simp [Keeps, hnext])

/-- Where, under an invariant, a step keeps `P` exactly when it meets `C`, the runs that
    never leave `P` are the runs whose steps all meet `C`. -/
theorem along_keeps_iff_of_invariant {I P : σ → Prop} {C : σ → α → Prop}
    (hinv : ∀ s a s', I s → step s a = some s' → I s')
    (hstep : ∀ s a, I s → P s → (Keeps step P s a ↔ C s a)) {s : σ} (as : List α) (hI : I s)
    (hs : P s) : along step (Keeps step P) s as ↔ along step C s as := by
  induction as generalizing s with
  | nil => rfl
  | cons a as ih =>
    simp only [along]
    rw [hstep s a hI hs]
    refine and_congr_right fun hC => ?_
    cases hnext : step s a with
    | none => rfl
    | some s' => exact ih (hinv s a s' hI hnext) ((hstep s a hI hs).mpr hC s' hnext)

/-- Where a step keeps `P` exactly when it meets `C`, the runs that never leave
    `P` are the runs whose steps all meet `C`. -/
theorem along_keeps_iff {P : σ → Prop} {C : σ → α → Prop}
    (hstep : ∀ s a, P s → (Keeps step P s a ↔ C s a)) {s : σ} (as : List α) (hs : P s) :
    along step (Keeps step P) s as ↔ along step C s as := by
  refine along_keeps_iff_of_invariant step (I := fun _ => True) (fun _ _ _ _ _ => trivial) ?_ as
    trivial hs
  intro s a _ hP
  exact hstep s a hP

end AiDaemon.Transition
