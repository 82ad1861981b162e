import AiDaemon.Sched

/-!
# The KV budget over whole runs

`reserve_kv` keeps a running total in saturating arithmetic, so a drift in it
would be silent.  The invariant `KvInv` is that the total is the exact sum of
the entries and within the budget.  It is what makes every operation of the
trace exact, and exactness is what makes the invariant survive the next call,
so the two are proved together.

The planning loops are then identified with greedy shedding (`Ledger.shed`) over
one list, `evictable`: the idle background caches of other sessions followed by
the idle interactive ones.  From that single description follow both the exact
condition under which a reservation is refused and everything a successful one
does.
-/

namespace AiDaemon.Sched

open Machine Ledger

/-- The running total is the exact sum of the entries, and within the budget. -/
structure KvInv (s : Scheduler) (inner : Inner) : Prop where
  used_eq : inner.kvUsed = weight KvEntry.bytes inner.kv
  used_le : inner.kvUsed ≤ s.kvBudget

/-! ### The planning loops shed -/

def rowBytes (e : Row Text KvEntry) : Nat := e.2.bytes

theorem rowsWeight_bytes (rows : List (Row Text KvEntry)) :
    rowsWeight KvEntry.bytes rows = (rows.map rowBytes).sum := rfl

section Plan

variable {used extra budget : Nat}

theorem needed_spec (hused : used ≤ budget) (hextra : extra ≤ budget) (hbudget : budget < 2 ^ 63)
    {freed : Nat} (hfreed : freed ≤ used) :
    (needed used freed extra).Exact ∧ (needed used freed extra).val = used - freed + extra := by
  have hlt : used - freed + extra < 2 ^ 64 := by omega
  refine ⟨?_, ?_⟩
  · simp only [needed, Traced.exact_bind, satSub_exact, satSub_val, add_exact]
    exact ⟨hfreed, hlt⟩
  · simp only [needed, Traced.val_bind, satSub_val]
    exact add_val hlt

/-- The plan after taking `rows`. -/
def Plan.take (plan : Plan) (rows : List (Row Text KvEntry)) : Plan :=
  ⟨plan.freed + (rows.map rowBytes).sum, plan.victims ++ rows.map victimOf⟩

theorem Plan.take_nil (plan : Plan) : plan.take [] = plan := by
  simp [Plan.take]

theorem Plan.take_append (plan : Plan) (l r : List (Row Text KvEntry)) :
    plan.take (l ++ r) = (plan.take l).take r := by
  simp [Plan.take, Nat.add_assoc]

/-- What is still to be freed under a plan. -/
def deficit (used extra budget : Nat) (plan : Plan) : Nat := used + extra - budget - plan.freed

theorem needed_le_iff {plan : Plan} (hfreed : plan.freed ≤ used) :
    used - plan.freed + extra ≤ budget ↔ deficit used extra budget plan = 0 := by
  simp only [deficit]
  omega

theorem deficit_take (plan : Plan) (rows : List (Row Text KvEntry)) :
    deficit used extra budget (plan.take rows) =
      deficit used extra budget plan - (rows.map rowBytes).sum := by
  simp only [deficit, Plan.take]
  omega

/-- **One pass sheds.** With every candidate's bytes still inside `used`, the
    loop takes the shortest prefix of the candidates that covers the deficit. -/
theorem planPass_spec (hused : used ≤ budget) (hextra : extra ≤ budget) (hbudget : budget < 2 ^ 63)
    (rows : List (Row Text KvEntry)) (plan : Plan)
    (hfit : plan.freed + (rows.map rowBytes).sum ≤ used) :
    (planPass used extra budget rows plan).Exact ∧
      (planPass used extra budget rows plan).val =
        plan.take (shed rowBytes (deficit used extra budget plan) rows) := by
  induction rows generalizing plan with
  | nil => simp [planPass, Plan.take_nil]
  | cons e rest ih =>
    have hsum : plan.freed + (rowBytes e + (rest.map rowBytes).sum) ≤ used := by simpa using hfit
    have hfreed : plan.freed ≤ used := by omega
    obtain ⟨hexact, hval⟩ := needed_spec hused hextra hbudget hfreed
    simp only [planPass, Traced.exact_bind, Traced.val_bind, hval]
    by_cases hbreak : used - plan.freed + extra ≤ budget
    · have hd : deficit used extra budget plan = 0 := (needed_le_iff hfreed).mp hbreak
      rw [if_pos hbreak, hd, shed_zero, Plan.take_nil]
      exact ⟨⟨hexact, Traced.exact_pure _⟩, rfl⟩
    · have hd : 0 < deficit used extra budget plan :=
        Nat.pos_of_ne_zero fun h => hbreak ((needed_le_iff hfreed).mpr h)
      have hadd : plan.freed + e.2.bytes < 2 ^ 64 := by
        have : rowBytes e = e.2.bytes := rfl
        omega
      -- the extended plan leaves the remaining candidates inside `used`
      have hnext : (⟨plan.freed + e.2.bytes, plan.victims ++ [victimOf e]⟩ : Plan) =
          plan.take [e] := by simp [Plan.take, rowBytes]
      have hfit' : (plan.take [e]).freed + (rest.map rowBytes).sum ≤ used := by
        simp only [Plan.take, List.map_cons, List.map_nil, List.sum_cons, List.sum_nil]
        omega
      obtain ⟨hexact', hval'⟩ := ih (plan.take [e]) hfit'
      have hdeficit : deficit used extra budget (plan.take [e]) =
          deficit used extra budget plan - rowBytes e := by
        rw [deficit_take]
        simp
      rw [if_neg hbreak]
      simp only [Traced.exact_bind, Traced.val_bind, add_exact, add_val hadd, hnext]
      refine ⟨⟨hexact, hadd, hexact'⟩, ?_⟩
      rw [hval', hdeficit, shed_cons rowBytes hd, ← Plan.take_append]
      rfl

/-- **Both passes shed**, from the concatenation of their candidate lists. -/
theorem planPasses_spec (hused : used ≤ budget) (hextra : extra ≤ budget)
    (hbudget : budget < 2 ^ 63) (candidatesOf : Class → List (Row Text KvEntry))
    (passes : List Class) (plan : Plan)
    (hfit : plan.freed + ((passes.flatMap candidatesOf).map rowBytes).sum ≤ used) :
    (planPasses used extra budget candidatesOf passes plan).Exact ∧
      (planPasses used extra budget candidatesOf passes plan).val =
        plan.take (shed rowBytes (deficit used extra budget plan)
          (passes.flatMap candidatesOf)) := by
  induction passes generalizing plan with
  | nil => simp [planPasses, Plan.take_nil]
  | cons pass passes ih =>
    simp only [List.flatMap_cons, List.map_append, List.sum_append] at hfit
    have hfreed : plan.freed ≤ used := by omega
    obtain ⟨hexact, hval⟩ := needed_spec hused hextra hbudget hfreed
    simp only [planPasses, Traced.exact_bind, Traced.val_bind, hval]
    by_cases hbreak : used - plan.freed + extra ≤ budget
    · have hd : deficit used extra budget plan = 0 := (needed_le_iff hfreed).mp hbreak
      rw [if_pos hbreak, hd, shed_zero, Plan.take_nil]
      exact ⟨⟨hexact, Traced.exact_pure _⟩, rfl⟩
    · obtain ⟨hexact₁, hval₁⟩ := planPass_spec hused hextra hbudget (candidatesOf pass) plan
        (by omega)
      have htaken := shed_sum_le rowBytes (deficit used extra budget plan) (candidatesOf pass)
      obtain ⟨hexact₂, hval₂⟩ := ih
        (plan.take (shed rowBytes (deficit used extra budget plan) (candidatesOf pass)))
        (by simp only [Plan.take]; omega)
      rw [if_neg hbreak]
      simp only [Traced.exact_bind, Traced.val_bind, hval₁]
      refine ⟨⟨hexact, hexact₁, hexact₂⟩, ?_⟩
      rw [hval₂, List.flatMap_cons, shed_append, Plan.take_append, deficit_take]

end Plan

/-- The commit loop removes every victim and subtracts the sizes exactly. -/
theorem commit_spec (rows : List (Row Text KvEntry)) (kv : Table Text KvEntry) (used : Nat)
    (hfit : (rows.map rowBytes).sum ≤ used) :
    (commit (rows.map victimOf) kv used).Exact ∧
      (commit (rows.map victimOf) kv used).val =
        (eraseAll (rows.map Sigma.fst) kv, used - (rows.map rowBytes).sum) := by
  induction rows generalizing kv used with
  | nil => simp [commit, eraseAll]
  | cons e rest ih =>
    simp only [List.map_cons, List.sum_cons] at hfit
    obtain ⟨hexact, hval⟩ := ih (kv.erase e.1) (used - rowBytes e) (by omega)
    simp only [List.map_cons, commit, Traced.exact_bind, Traced.val_bind, satSub_exact,
      satSub_val, List.sum_cons]
    refine ⟨⟨?_, hexact⟩, ?_⟩
    · show rowBytes e ≤ used
      omega
    · rw [show (victimOf e).size = rowBytes e from rfl, show (victimOf e).id = e.1 from rfl, hval,
        Nat.sub_sub]
      rfl

/-! ### Who may be evicted -/

/-- The caches a reservation for `session` may take, in the order it would. -/
def evictable (kv : Table Text KvEntry) (order : IterOrder (Row Text KvEntry)) (session : Text) :
    List (Row Text KvEntry) :=
  [Class.background, Class.interactive].flatMap (candidates kv order session)

/-- Other sessions' entries with a request in flight. -/
def othersActive (kv : Table Text KvEntry) (session : Text) : List (Row Text KvEntry) :=
  kv.entries.filter fun e => e.1 ≠ session ∧ e.2.active = true

def othersIdle (kv : Table Text KvEntry) (session : Text) : List (Row Text KvEntry) :=
  kv.entries.filter fun e => e.1 ≠ session ∧ e.2.active = false

theorem candidates_perm (kv : Table Text KvEntry) (order : IterOrder (Row Text KvEntry))
    (session : Text) (pass : Class) :
    (candidates kv order session pass).Perm
      ((othersIdle kv session).filter fun e => e.2.cls = pass) := by
  have hvisit := (order.perm kv.entries).filter
    fun e => decide (e.1 ≠ session ∧ e.2.cls = pass ∧ e.2.active = false)
  have hsame : kv.entries.filter
      (fun e => decide (e.1 ≠ session ∧ e.2.cls = pass ∧ e.2.active = false)) =
      (othersIdle kv session).filter fun e => e.2.cls = pass := by
    rw [othersIdle, List.filter_filter]
    apply List.filter_congr
    intro e _
    simp only [Bool.decide_and]
    cases decide (e.1 ≠ session) <;> cases decide (e.2.cls = pass) <;> rfl
  rw [← hsame]
  exact (List.perm_insertionSort _ _).trans hvisit

theorem evictable_perm (kv : Table Text KvEntry) (order : IterOrder (Row Text KvEntry))
    (session : Text) : (evictable kv order session).Perm (othersIdle kv session) := by
  have hclass : (othersIdle kv session).filter (fun e => e.2.cls = .interactive) =
      (othersIdle kv session).filter (fun e => !decide (e.2.cls = .background)) := by
    apply List.filter_congr
    intro e _
    cases e.2.cls <;> rfl
  have hsplit := List.filter_append_perm
    (fun e : Row Text KvEntry => decide (e.2.cls = .background)) (othersIdle kv session)
  rw [← hclass] at hsplit
  simp only [evictable, List.flatMap_cons, List.flatMap_nil, List.append_nil]
  exact ((candidates_perm kv order session .background).append
    (candidates_perm kv order session .interactive)).trans hsplit

theorem mem_evictable {kv : Table Text KvEntry} {order : IterOrder (Row Text KvEntry)}
    {session : Text} {e : Row Text KvEntry} :
    e ∈ evictable kv order session ↔
      kv.lookup e.1 = some e.2 ∧ e.1 ≠ session ∧ e.2.active = false := by
  rw [(evictable_perm kv order session).mem_iff, othersIdle, List.mem_filter, decide_eq_true_eq,
    ← mem_entries_iff]

theorem evictable_nodup (kv : Table Text KvEntry) (order : IterOrder (Row Text KvEntry))
    (session : Text) : ((evictable kv order session).map Sigma.fst).Nodup := by
  have hsub : ((othersIdle kv session).map Sigma.fst).Sublist (kv.entries.map Sigma.fst) :=
    List.filter_sublist.map _
  exact ((evictable_perm kv order session).map Sigma.fst).nodup_iff.mpr
    (hsub.nodup kv.keys_nodup)

/-- The table is the requester's own entry, the untouchable ones and the
    evictable ones. -/
theorem weight_split (inner : Inner) (order : IterOrder (Row Text KvEntry)) (session : Text) :
    weight KvEntry.bytes inner.kv = previousBytes inner session +
      ((othersActive inner.kv session).map rowBytes).sum +
      ((evictable inner.kv order session).map rowBytes).sum := by
  have hown := weight_erase_getD KvEntry.bytes inner.kv session
  have hothers := rowsWeight_filter_add KvEntry.bytes
    (fun e : Row Text KvEntry => e.2.active) (inner.kv.erase session).entries
  have hactive : (inner.kv.erase session).entries.filter (fun e => e.2.active) =
      othersActive inner.kv session := by
    rw [entries_erase, List.filter_filter, othersActive]
    apply List.filter_congr
    intro e _
    cases he : e.2.active <;> simp
  have hidle : (inner.kv.erase session).entries.filter (fun e => !e.2.active) =
      othersIdle inner.kv session := by
    rw [entries_erase, List.filter_filter, othersIdle]
    apply List.filter_congr
    intro e _
    cases he : e.2.active <;> simp
  have hevict := rowsWeight_perm KvEntry.bytes (evictable_perm inner.kv order session)
  rw [hactive, hidle, ← hevict] at hothers
  simp only [weight, rowsWeight_bytes] at hown hothers ⊢
  simp only [previousBytes]
  omega

/-! ### What a reservation does -/

/-- The declarative feasibility condition: what is asked for and what cannot be
    touched fit the budget together. -/
def Fits (s : Scheduler) (inner : Inner) (session : Text) (bytes : Nat) : Prop :=
  bytes + ((othersActive inner.kv session).map rowBytes).sum ≤ s.kvBudget

/-- The entries a reservation takes away when it succeeds. -/
def evicted (s : Scheduler) (inner : Inner) (order : IterOrder (Row Text KvEntry))
    (session : Text) (bytes : Nat) : List (Row Text KvEntry) :=
  shed rowBytes (inner.kvUsed + (bytes - previousBytes inner session) - s.kvBudget)
    (evictable inner.kv order session)

/-- The state after a successful reservation. -/
def granted (inner : Inner) (victims : List (Row Text KvEntry)) (session : Text)
    (entry : KvEntry) : Inner :=
  { inner with
    kv := (eraseAll (victims.map Sigma.fst) inner.kv).insert session entry
    kvUsed := inner.kvUsed - (victims.map rowBytes).sum +
      (entry.bytes - previousBytes inner session) - (previousBytes inner session - entry.bytes) }

section Reserve

variable {s : Scheduler} {inner : Inner} (order : IterOrder (Row Text KvEntry)) (now : Nat)
  (session backend : Text) (cls : Class) (bytes : Nat)

theorem evicted_sublist (s : Scheduler) (inner : Inner) :
    (evicted s inner order session bytes).Sublist (evictable inner.kv order session) :=
  (shed_isPrefix rowBytes _ _).sublist

/-- An evicted row is an idle entry of another session. -/
theorem mem_evicted {e : Row Text KvEntry} (h : e ∈ evicted s inner order session bytes) :
    inner.kv.lookup e.1 = some e.2 ∧ e.1 ≠ session ∧ e.2.active = false :=
  mem_evictable.mp ((evicted_sublist order session bytes s inner).subset h)

theorem evicted_nodup (s : Scheduler) (inner : Inner) :
    ((evicted s inner order session bytes).map Sigma.fst).Nodup :=
  ((evicted_sublist order session bytes s inner).map Sigma.fst).nodup
    (evictable_nodup inner.kv order session)

theorem self_not_evicted (s : Scheduler) (inner : Inner) :
    session ∉ (evicted s inner order session bytes).map Sigma.fst := by
  intro hmem
  obtain ⟨e, he, heq⟩ := List.mem_map.mp hmem
  exact (mem_evicted order session bytes he).2.1 heq

theorem evicted_sum_le (hinv : KvInv s inner) :
    ((evicted s inner order session bytes).map rowBytes).sum ≤ inner.kvUsed := by
  have hsplit := weight_split inner order session
  have hsum := shed_sum_le rowBytes
    (inner.kvUsed + (bytes - previousBytes inner session) - s.kvBudget)
    (evictable inner.kv order session)
  have heq := hinv.used_eq
  simp only [evicted]
  omega

/-- The two planning passes run without a wrap and plan exactly `evicted`. -/
theorem plan_spec (hinv : KvInv s inner)
    (hextra : bytes - previousBytes inner session ≤ s.kvBudget) :
    (planPasses inner.kvUsed (bytes - previousBytes inner session) s.kvBudget
        (candidates inner.kv order session) [.background, .interactive] ⟨0, []⟩).Exact ∧
      (planPasses inner.kvUsed (bytes - previousBytes inner session) s.kvBudget
        (candidates inner.kv order session) [.background, .interactive] ⟨0, []⟩).val =
      ⟨((evicted s inner order session bytes).map rowBytes).sum,
        (evicted s inner order session bytes).map victimOf⟩ := by
  have hsplit := weight_split inner order session
  have heq := hinv.used_eq
  have hfit : (⟨0, []⟩ : Plan).freed +
      (([Class.background, Class.interactive].flatMap
        (candidates inner.kv order session)).map rowBytes).sum ≤ inner.kvUsed := by
    show 0 + ((evictable inner.kv order session).map rowBytes).sum ≤ inner.kvUsed
    omega
  obtain ⟨hexact, hval⟩ := planPasses_spec hinv.used_le hextra s.budget_lt
    (candidates inner.kv order session) [.background, .interactive] ⟨0, []⟩ hfit
  refine ⟨hexact, ?_⟩
  rw [hval]
  simp [Plan.take, deficit, evicted, evictable]

theorem previousBytes_le (hinv : KvInv s inner) : previousBytes inner session ≤ s.kvBudget := by
  have hsplit := weight_split inner (IterOrder.stored _) session
  have heq := hinv.used_eq
  have hle := hinv.used_le
  omega

/-- The planned evictions are enough exactly when the request fits. -/
theorem evicted_enough_iff (hinv : KvInv s inner) (hgrow : previousBytes inner session < bytes) :
    inner.kvUsed - ((evicted s inner order session bytes).map rowBytes).sum +
        (bytes - previousBytes inner session) ≤ s.kvBudget ↔ Fits s inner session bytes := by
  have hsplit := weight_split inner order session
  have hle := shed_sum_le rowBytes
    (inner.kvUsed + (bytes - previousBytes inner session) - s.kvBudget)
    (evictable inner.kv order session)
  have hcov := shed_covers rowBytes
    (inner.kvUsed + (bytes - previousBytes inner session) - s.kvBudget)
    (evictable inner.kv order session)
  have heq := hinv.used_eq
  simp only [evicted, Fits]
  omega

/-- A request that cannot fit is refused, and nothing is touched. -/
theorem reserveKv_refused (hinv : KvInv s inner) (hno : ¬ Fits s inner session bytes) :
    (reserveKv s inner order now session backend cls bytes).Exact ∧
      ∃ text, (reserveKv s inner order now session backend cls bytes).val =
        ⟨.error text, inner, []⟩ := by
  have hsplit := weight_split inner order session
  have heq := hinv.used_eq
  have hle := hinv.used_le
  have hgrow : previousBytes inner session < bytes := by
    simp only [Fits] at hno
    omega
  simp only [reserveKv, if_pos hgrow]
  by_cases hover : bytes - previousBytes inner session > s.kvBudget
  · rw [if_pos hover]
    exact ⟨Traced.exact_pure _, _, rfl⟩
  · rw [if_neg hover]
    have hextra : bytes - previousBytes inner session ≤ s.kvBudget := Nat.le_of_not_lt hover
    obtain ⟨hplan, hplanVal⟩ := plan_spec order session bytes hinv hextra
    obtain ⟨hneed, hneedVal⟩ := needed_spec hle hextra s.budget_lt
      (evicted_sum_le order session bytes hinv)
    have hnot := mt (evicted_enough_iff order session bytes hinv hgrow).mp hno
    simp only [Traced.exact_bind, Traced.val_bind, hplanVal, hneedVal, gt_iff_lt,
      if_pos (Nat.lt_of_not_le hnot)]
    exact ⟨⟨hplan, hneed, Traced.exact_pure _⟩, _, rfl⟩

/-- A request that fits is granted: the planned caches go, the entry is written. -/
theorem reserveKv_granted (hinv : KvInv s inner) (hfits : Fits s inner session bytes) :
    (reserveKv s inner order now session backend cls bytes).Exact ∧
      (reserveKv s inner order now session backend cls bytes).val =
        ⟨.ok ((evicted s inner order session bytes).map Sigma.fst),
          granted inner (evicted s inner order session bytes) session
            ⟨bytes, cls, now, backend, true⟩,
          (evicted s inner order session bytes).map fun e => ⟨e.2.backend, e.1⟩⟩ := by
  have hle := hinv.used_le
  have hsum := evicted_sum_le order session bytes hinv
  have hprev := previousBytes_le session hinv
  have hbudget := s.budget_lt
  by_cases hgrow : previousBytes inner session < bytes
  · have hextra : bytes - previousBytes inner session ≤ s.kvBudget := by
      simp only [Fits] at hfits
      omega
    obtain ⟨hplan, hplanVal⟩ := plan_spec order session bytes hinv hextra
    obtain ⟨hneed, hneedVal⟩ := needed_spec hle hextra hbudget hsum
    obtain ⟨hcommit, hcommitVal⟩ := commit_spec (evicted s inner order session bytes) inner.kv
      inner.kvUsed hsum
    have henough := (evicted_enough_iff order session bytes hinv hgrow).mpr hfits
    have hadd : inner.kvUsed - ((evicted s inner order session bytes).map rowBytes).sum +
        (bytes - previousBytes inner session) < 2 ^ 64 := by omega
    simp only [reserveKv, if_pos hgrow, if_neg (Nat.not_lt.mpr hextra), gt_iff_lt,
      Traced.exact_bind, Traced.val_bind, hplanVal, hneedVal, if_neg (Nat.not_lt.mpr henough),
      hcommitVal, add_val hadd, add_exact]
    refine ⟨⟨hplan, hneed, hcommit, hadd, Traced.exact_pure _⟩, ?_⟩
    have hshrink : previousBytes inner session - bytes = 0 := by omega
    simp only [Traced.val_pure, granted, hshrink, Nat.sub_zero, List.map_map]
    rfl
  · -- a smaller or equal reservation has no demand, so nothing is shed
    have hnone : evicted s inner order session bytes = [] := by
      have hdemand : inner.kvUsed + (bytes - previousBytes inner session) - s.kvBudget = 0 := by
        omega
      rw [evicted, hdemand, shed_zero]
    have hsplit := weight_split inner order session
    have heq := hinv.used_eq
    simp only [reserveKv, if_neg hgrow, Traced.exact_bind, Traced.val_bind, satSub_exact,
      satSub_val, hnone, gt_iff_lt]
    refine ⟨⟨by omega, Traced.exact_pure _⟩, ?_⟩
    have hextra : bytes - previousBytes inner session = 0 := by omega
    simp [granted, eraseAll, hextra]

/-- The accounting is exact again after a granted reservation. -/
theorem granted_inv (hinv : KvInv s inner) (hfits : Fits s inner session bytes) (entry : KvEntry)
    (hentry : entry.bytes = bytes) :
    KvInv s (granted inner (evicted s inner order session bytes) session entry) := by
  have hself := self_not_evicted order session bytes s inner
  have herased := weight_eraseAll KvEntry.bytes inner.kv (evicted_nodup order session bytes s inner)
    fun e he => (mem_evicted order session bytes he).1
  have hown := weight_erase_getD KvEntry.bytes
    (eraseAll ((evicted s inner order session bytes).map Sigma.fst) inner.kv) session
  have hinsert := weight_insert KvEntry.bytes
    (eraseAll ((evicted s inner order session bytes).map Sigma.fst) inner.kv) session entry
  rw [lookup_eraseAll, if_neg hself] at hown
  have hprev : ((inner.kv.lookup session).map KvEntry.bytes).getD 0 =
    previousBytes inner session := rfl
  rw [hprev] at hown
  rw [rowsWeight_bytes] at herased
  have heq := hinv.used_eq
  have hle := hinv.used_le
  have hexact : (granted inner (evicted s inner order session bytes) session entry).kvUsed =
      weight KvEntry.bytes
        (granted inner (evicted s inner order session bytes) session entry).kv := by
    simp only [granted, hinsert]
    omega
  refine ⟨hexact, ?_⟩
  by_cases hgrow : previousBytes inner session < bytes
  · have henough := (evicted_enough_iff order session bytes hinv hgrow).mpr hfits
    simp only [granted]
    omega
  · simp only [granted]
    omega

end Reserve

/-! ### Every call keeps the accounting exact -/

/-- The invariant reads nothing but the table and the total. -/
theorem KvInv.congr {s : Scheduler} {inner inner' : Inner} (hinv : KvInv s inner)
    (hkv : inner'.kv = inner.kv) (hused : inner'.kvUsed = inner.kvUsed) : KvInv s inner' := by
  refine ⟨?_, ?_⟩
  · rw [hused, hkv]
    exact hinv.used_eq
  · rw [hused]
    exact hinv.used_le

/-- Rewriting an entry without changing its size. -/
theorem KvInv.touch {s : Scheduler} {inner : Inner} (hinv : KvInv s inner) {session : Text}
    {old : KvEntry} (hold : inner.kv.lookup session = some old) (entry : KvEntry)
    (hbytes : entry.bytes = old.bytes) :
    KvInv s { inner with kv := inner.kv.insert session entry } := by
  have herase := weight_erase KvEntry.bytes hold
  have hinsert := weight_insert KvEntry.bytes inner.kv session entry
  have heq := hinv.used_eq
  refine ⟨?_, hinv.used_le⟩
  simp only [hinsert]
  omega

theorem releaseKv_spec {s : Scheduler} {inner : Inner} (hinv : KvInv s inner) (session : Text) :
    (releaseKv inner session).Exact ∧ KvInv s (releaseKv inner session).val := by
  unfold releaseKv
  cases hlook : inner.kv.lookup session with
  | none => exact ⟨Traced.exact_pure _, hinv⟩
  | some entry =>
    have herase := weight_erase KvEntry.bytes hlook
    have heq := hinv.used_eq
    have hle := hinv.used_le
    simp only [Traced.exact_bind, Traced.val_bind, satSub_exact, satSub_val]
    refine ⟨⟨by omega, Traced.exact_pure _⟩, ?_, ?_⟩
    · simp only [Traced.val_pure]
      omega
    · simp only [Traced.val_pure]
      omega

theorem reserveKv_spec {s : Scheduler} {inner : Inner} (hinv : KvInv s inner)
    (order : IterOrder (Row Text KvEntry)) (now : Nat) (session backend : Text) (cls : Class)
    (bytes : Nat) :
    (reserveKv s inner order now session backend cls bytes).Exact ∧
      KvInv s (reserveKv s inner order now session backend cls bytes).val.inner := by
  by_cases hfits : Fits s inner session bytes
  · obtain ⟨hexact, hval⟩ := reserveKv_granted order now session backend cls bytes hinv hfits
    refine ⟨hexact, ?_⟩
    rw [hval]
    exact granted_inv order session bytes hinv hfits _ rfl
  · obtain ⟨hexact, text, hval⟩ :=
      reserveKv_refused order now session backend cls bytes hinv hfits
    refine ⟨hexact, ?_⟩
    rw [hval]
    exact hinv

theorem step_kv {s : Scheduler} {inner : Inner} (hinv : KvInv s inner) (call : Call) :
    (step s inner call).Exact ∧ KvInv s (step s inner call).val := by
  cases call with
  | enqueue session cls => exact ⟨Traced.exact_pure _, hinv.congr rfl rfl⟩
  | admitTurn ticket =>
    refine ⟨Traced.exact_pure _, ?_⟩
    simp only [step, Traced.val_pure]
    cases hadmit : admitTurn s inner ticket with
    | none => exact hinv
    | some next =>
      obtain ⟨me, -, hadmitted⟩ := admitTurn_cases hadmit
      exact hinv.congr hadmitted.kv hadmitted.kvUsed
  | attach ticket backend reqId => exact ⟨Traced.exact_pure _, hinv.congr rfl rfl⟩
  | release ticket =>
    refine ⟨Traced.exact_pure _, ?_⟩
    simp only [step, Traced.val_pure, release]
    split <;> exact hinv.congr rfl rfl
  | charge now session tokens =>
    refine ⟨Traced.exact_pure _, ?_⟩
    simp only [step, Traced.val_pure, charge]
    cases hlook : inner.kv.lookup session with
    | none => exact hinv.congr rfl rfl
    | some entry =>
      have htouch := hinv.touch hlook { entry with lastUsed := now } rfl
      exact htouch.congr rfl rfl
  | reserveKv order now session backend cls bytes =>
    obtain ⟨hexact, hnext⟩ := reserveKv_spec hinv order now session backend cls bytes
    simp only [step, Traced.exact_bind, Traced.val_bind]
    exact ⟨⟨hexact, Traced.exact_pure _⟩, hnext⟩
  | markIdle now session =>
    refine ⟨Traced.exact_pure _, ?_⟩
    simp only [step, Traced.val_pure, markIdle]
    cases hlook : inner.kv.lookup session with
    | none => exact hinv
    | some entry => exact hinv.touch hlook _ rfl
  | releaseKv session => exact releaseKv_spec hinv session

theorem new_kv (s : Scheduler) : KvInv s Inner.new := ⟨rfl, Nat.zero_le _⟩

theorem run_kv {s : Scheduler} {inner : Inner} (hinv : KvInv s inner) (calls : List Call) :
    (run s inner calls).Exact ∧ KvInv s (run s inner calls).val := by
  induction calls generalizing inner with
  | nil => exact ⟨Traced.exact_pure _, hinv⟩
  | cons call calls ih =>
    obtain ⟨hexact, hnext⟩ := step_kv hinv call
    obtain ⟨hrest, hlast⟩ := ih hnext
    simp only [run, Traced.exact_bind, Traced.val_bind]
    exact ⟨⟨hexact, hrest⟩, hlast⟩

/-- **KV accounting.** After any sequence of calls the running total is the sum
    of the entries and within the budget, and no operation on the way wrapped
    or saturated. -/
theorem kv_accounting (config : Config) (calls : List Call) :
    let after := run (Scheduler.new config) Inner.new calls
    after.val.kvUsed = weight KvEntry.bytes after.val.kv ∧
      after.val.kvUsed ≤ config.kvBudgetBytes ∧ after.Exact := by
  obtain ⟨hexact, hinv⟩ := run_kv (new_kv (Scheduler.new config)) calls
  exact ⟨hinv.used_eq, hinv.used_le, hexact⟩

/-! ### All or nothing -/

/-- What a successful reservation leaves behind, entry by entry. -/
structure ReservedOk (before : Inner) (reserved : Reserved) (session : Text) (bytes : Nat)
    (ids : List Text) : Prop where
  nodup : ids.Nodup
  gone_iff : ∀ id, id ∈ ids ↔
    before.kv.lookup id ≠ none ∧ reserved.inner.kv.lookup id = none
  self_kept : session ∉ ids
  idle : ∀ id ∈ ids, ∀ entry, before.kv.lookup id = some entry → entry.active = false
  one_drop_each : reserved.dropped.map DropCache.session = ids
  drop_backend : ∀ msg ∈ reserved.dropped, ∃ entry,
    before.kv.lookup msg.session = some entry ∧ msg.backend = entry.backend
  others_kept : ∀ id, id ≠ session → id ∉ ids →
    reserved.inner.kv.lookup id = before.kv.lookup id
  entry : ∃ entry, reserved.inner.kv.lookup session = some entry ∧ entry.active = true ∧
    entry.bytes = bytes

@[simp] theorem lookup_granted_self (inner : Inner) (victims : List (Row Text KvEntry))
    (session : Text) (entry : KvEntry) :
    (granted inner victims session entry).kv.lookup session = some entry := by
  simp [granted, AList.lookup_insert]

theorem lookup_granted_ne (inner : Inner) (victims : List (Row Text KvEntry)) {session id : Text}
    (entry : KvEntry) (hne : id ≠ session) :
    (granted inner victims session entry).kv.lookup id =
      if id ∈ victims.map Sigma.fst then none else inner.kv.lookup id := by
  simp only [granted]
  rw [AList.lookup_insert_ne hne, lookup_eraseAll]
  congr

theorem reservedOk_granted {s : Scheduler} {inner : Inner} (order : IterOrder (Row Text KvEntry))
    (session : Text) (bytes : Nat) (entry : KvEntry) (hactive : entry.active = true)
    (hbytes : entry.bytes = bytes) :
    ReservedOk inner
      ⟨.ok ((evicted s inner order session bytes).map Sigma.fst),
        granted inner (evicted s inner order session bytes) session entry,
        (evicted s inner order session bytes).map fun e => ⟨e.2.backend, e.1⟩⟩
      session bytes ((evicted s inner order session bytes).map Sigma.fst) := by
  have hrow : ∀ e ∈ evicted s inner order session bytes,
      inner.kv.lookup e.1 = some e.2 ∧ e.1 ≠ session ∧ e.2.active = false :=
    fun e he => mem_evicted order session bytes he
  have hself := self_not_evicted order session bytes s inner
  refine ⟨evicted_nodup order session bytes s inner, ?_, hself, ?_, ?_, ?_, ?_, ?_⟩
  · intro id
    constructor
    · intro hmem
      have hne : id ≠ session := fun heq => hself (heq ▸ hmem)
      obtain ⟨e, he, rfl⟩ := List.mem_map.mp hmem
      refine ⟨?_, ?_⟩
      · rw [(hrow e he).1]
        simp
      · rw [lookup_granted_ne _ _ _ hne, if_pos hmem]
    · rintro ⟨hbefore, hafter⟩
      by_cases hid : id = session
      · subst hid
        rw [lookup_granted_self] at hafter
        cases hafter
      · rw [lookup_granted_ne _ _ _ hid] at hafter
        by_contra hnot
        rw [if_neg hnot] at hafter
        exact hbefore hafter
  · intro id hmem found hfound
    obtain ⟨e, he, rfl⟩ := List.mem_map.mp hmem
    have hsame := (hrow e he).1
    rw [hfound] at hsame
    cases hsame
    exact (hrow e he).2.2
  · simp only [List.map_map]
    rfl
  · intro msg hmsg
    obtain ⟨e, he, rfl⟩ := List.mem_map.mp hmsg
    exact ⟨e.2, (hrow e he).1, rfl⟩
  · intro id hne hnot
    rw [lookup_granted_ne _ _ _ hne, if_neg hnot]
  · exact ⟨entry, lookup_granted_self _ _ _ _, hactive, hbytes⟩

/-- **`reserve_kv` is all or nothing, and refuses only when it must.** In every
    reachable state a reservation succeeds exactly when it fits beside the
    entries that cannot be touched; a refusal changes and sends nothing. -/
theorem reserveKv_all_or_nothing (config : Config) (calls : List Call)
    (order : IterOrder (Row Text KvEntry)) (now : Nat) (session backend : Text) (cls : Class)
    (bytes : Nat) :
    let s := Scheduler.new config
    let inner := (run s Inner.new calls).val
    let reserved := (reserveKv s inner order now session backend cls bytes).val
    ((∃ ids, reserved.result = .ok ids) ↔
        bytes + ((othersActive inner.kv session).map rowBytes).sum ≤ config.kvBudgetBytes) ∧
      (∀ text, reserved.result = .error text →
        reserved.inner.kv = inner.kv ∧ reserved.inner.kvUsed = inner.kvUsed ∧
          reserved.dropped = []) ∧
      (∀ ids, reserved.result = .ok ids → ReservedOk inner reserved session bytes ids) := by
  intro s inner reserved
  have hinv : KvInv s inner := (run_kv (new_kv s) calls).2
  by_cases hfits : Fits s inner session bytes
  · obtain ⟨-, hval⟩ := reserveKv_granted order now session backend cls bytes hinv hfits
    have hreserved : reserved = _ := hval
    refine ⟨⟨fun _ => hfits, fun _ => ⟨_, by rw [hreserved]⟩⟩, ?_, ?_⟩
    · intro text htext
      rw [hreserved] at htext
      cases htext
    · intro ids hids
      rw [hreserved] at hids ⊢
      cases hids
      exact reservedOk_granted order session bytes _ rfl rfl
  · obtain ⟨-, text, hval⟩ := reserveKv_refused order now session backend cls bytes hinv hfits
    have hreserved : reserved = _ := hval
    refine ⟨⟨?_, fun h => absurd h hfits⟩, ?_, ?_⟩
    · rintro ⟨ids, hids⟩
      rw [hreserved] at hids
      cases hids
    · intro _ _
      rw [hreserved]
      exact ⟨rfl, rfl, rfl⟩
    · intro ids hids
      rw [hreserved] at hids
      cases hids

end AiDaemon.Sched
