import AiDaemon.SchedSlots
import Mathlib.Data.Prod.Lex
import Mathlib.Data.Set.Finite.Lemmas
import Mathlib.Data.Set.Finite.List

/-!
# Who is admitted (`sched.rs`: `is_turn`)

Every waiter decides for itself whether the next slot is its own, by comparing its
key with those of all the others.  The keys are ordered like words, by class, then by
the tokens served to the session, then by ticket; tickets are distinct, so just one
waiter has the least key, and it is the only one that is ever admitted.
-/

namespace AiDaemon.Sched

open Machine Ledger

/-- The key of a waiter, in the order of words. -/
def turnOrder (inner : Inner) (w : Waiter) : Nat ×ₗ Nat ×ₗ Nat :=
  toLex (w.cls.rank, toLex (servedOf inner w.session, w.ticket))

/-- The waiter has the least key. -/
structure First (inner : Inner) (w : Waiter) : Prop where
  mem : w ∈ inner.waiting
  least : ∀ v ∈ inner.waiting, turnOrder inner w ≤ turnOrder inner v

theorem keyLe_iff (a b : Nat × Nat × Nat) :
    keyLe a b = true ↔ toLex (a.1, toLex a.2) ≤ toLex (b.1, toLex b.2) := by
  simp [keyLe, Prod.Lex.toLex_le_toLex]

/-- Where somebody waits, somebody is first. -/
theorem exists_first {inner : Inner} (h : inner.waiting ≠ []) : ∃ w, First inner w := by
  obtain ⟨w₀, hw₀⟩ := List.exists_mem_of_ne_nil _ h
  obtain ⟨w, hw, hleast⟩ := Set.exists_min_image {w | w ∈ inner.waiting} (turnOrder inner)
    (List.finite_toSet _) ⟨w₀, hw₀⟩
  exact ⟨w, hw, hleast⟩

section Waiting

variable {s : Scheduler} {inner : Inner} {w v : Waiter}

theorem First.ticket_unique (hw : First inner w) (hv : First inner v) : w.ticket = v.ticket := by
  have hsame := le_antisymm (hw.least v hv.mem) (hv.least w hw.mem)
  simp only [turnOrder, toLex_inj, Prod.mk.injEq] at hsame
  exact hsame.2.2

/-- Nobody of a more urgent class waits. -/
theorem First.rank_le (hw : First inner w) (hv : v ∈ inner.waiting) : w.cls.rank ≤ v.cls.rank := by
  have hle := hw.least v hv
  simp only [turnOrder, Prod.Lex.toLex_le_toLex] at hle
  rcases hle with hlt | ⟨heq, -⟩
  · exact hlt.le
  · exact heq.le

/-- Whoever of the class has waited longer has been served more. -/
theorem First.served_lt (hw : First inner w) (hv : v ∈ inner.waiting) (hcls : v.cls = w.cls)
    (hticket : v.ticket < w.ticket) : servedOf inner w.session < servedOf inner v.session := by
  have hle := hw.least v hv
  simp only [turnOrder, Prod.Lex.toLex_le_toLex, hcls] at hle
  omega

theorem find_waiting (hinv : SlotInv s inner) (hw : w ∈ inner.waiting) :
    inner.waiting.find? (fun v => v.ticket = w.ticket) = some w := by
  have hnodup := (List.nodup_append.mp hinv.tickets_nodup).2.1
  cases hfind : inner.waiting.find? (fun v => v.ticket = w.ticket) with
  | none =>
    have hnone := List.find?_eq_none.mp hfind w hw
    simp at hnone
  | some v =>
    have hv := List.mem_of_find?_eq_some hfind
    have hticket : v.ticket = w.ticket := by simpa using List.find?_some hfind
    rw [List.inj_on_of_nodup_map hnodup hv hw hticket]

/-- The count of a class is at most its cap, so the cast in `is_turn` leaves it alone. -/
theorem SlotInv.runningIn_cast (hinv : SlotInv s inner) (cls : Class) :
    runningIn inner cls % 2 ^ 32 = runningIn inner cls := by
  apply Nat.mod_eq_of_lt
  apply Nat.lt_of_le_of_lt (hinv.class_cap cls)
  cases cls with
  | interactive => exact s.interactive_u32
  | background => exact s.background_u32

/-- It is a waiter's turn when it is first and its class has a free slot. -/
theorem isTurn_iff (hinv : SlotInv s inner) (ticket : Nat) :
    isTurn s inner ticket = true ↔
      ∃ w, First inner w ∧ w.ticket = ticket ∧ runningIn inner w.cls < s.cap w.cls := by
  have hall : ∀ w : Waiter, (inner.waiting.all fun v =>
      keyLe (turnKey inner w) (turnKey inner v)) = true ↔
        ∀ v ∈ inner.waiting, turnOrder inner w ≤ turnOrder inner v := by
    intro w
    simp only [List.all_eq_true, keyLe_iff]
    rfl
  constructor
  · intro hturn
    unfold isTurn at hturn
    split at hturn
    · cases hturn
    · rename_i me hfind
      have hmem := List.mem_of_find?_eq_some hfind
      have hticket : me.ticket = ticket := by simpa using List.find?_some hfind
      rw [hinv.runningIn_cast] at hturn
      split at hturn
      · cases hturn
      · rename_i hfree
        exact ⟨me, ⟨hmem, (hall me).mp hturn⟩, hticket, Nat.lt_of_not_le hfree⟩
  · rintro ⟨w, hfirst, rfl, hfree⟩
    simp only [isTurn, find_waiting hinv hfirst.mem, hinv.runningIn_cast,
      if_neg (Nat.not_le.mpr hfree)]
    exact (hall w).mpr hfirst.least

end Waiting

/-- `new` leaves a slot for each class. -/
theorem cap_pos (config : Config) (cls : Class) : 0 < (Scheduler.new config).cap cls := by
  cases cls with
  | interactive => exact Nat.lt_of_lt_of_le Nat.one_pos (Nat.le_max_right _ _)
  | background => exact Nat.lt_of_lt_of_le Nat.one_pos (Nat.le_max_right _ _)

/-- In every reachable state it is the turn of the waiter with the least key and of no other,
    and its turn exactly when its class has a free slot. So background work is only admitted
    where nothing interactive waits, and nobody is passed by a session that was served no
    less; with nothing running, somebody's turn it is. -/
theorem admission_order (config : Config) (calls : List Call) :
    let s := Scheduler.new config
    let inner := (run s Inner.new calls).val
    (∀ t t', isTurn s inner t = true → isTurn s inner t' = true → t = t') ∧
      (inner.waiting ≠ [] → ∃ w, First inner w) ∧
      (∀ t, isTurn s inner t = true ↔
        ∃ w, First inner w ∧ w.ticket = t ∧ runningIn inner w.cls < s.cap w.cls) ∧
      (∀ t next msgs, admitTurn s inner t = some (next, msgs) →
        ∃ me ∈ inner.waiting, me.ticket = t ∧ me ∉ next.waiting ∧
          t ∈ next.running.map Running.ticket ∧
          (me.cls = .background → ∀ w ∈ inner.waiting, w.cls ≠ .interactive) ∧
          (∀ w ∈ inner.waiting, w.cls = me.cls → w.ticket < me.ticket →
            servedOf inner me.session < servedOf inner w.session)) ∧
      (inner.running = [] → inner.waiting ≠ [] →
        ∃ w ∈ inner.waiting, isTurn s inner w.ticket = true) := by
  intro s inner
  have hinv : SlotInv s inner := run_slots s calls
  refine ⟨?_, exists_first, isTurn_iff hinv, ?_, ?_⟩
  · intro t t' ht ht'
    obtain ⟨w, hw, rfl, -⟩ := (isTurn_iff hinv t).mp ht
    obtain ⟨v, hv, rfl, -⟩ := (isTurn_iff hinv t').mp ht'
    exact hw.ticket_unique hv
  · intro t next msgs hadmit
    obtain ⟨me, rfl, hadmitted⟩ := admitTurn_cases hadmit
    obtain ⟨w, hfirst, hticket, -⟩ := (isTurn_iff hinv me.ticket).mp hadmitted.turn
    have hsame : w = me := by
      have hfind := find_waiting hinv hfirst.mem
      rw [hticket, find_waiting hinv hadmitted.mem, Option.some.injEq] at hfind
      exact hfind.symm
    subst hsame
    refine ⟨w, hfirst.mem, rfl, ?_, ?_, ?_, fun v hv => hfirst.served_lt hv⟩
    · rw [hadmitted.waiting]
      simp
    · rcases hadmitted.running with ⟨-, hrun, -⟩ | ⟨-, hrun, -⟩
      · rw [hrun]
        simp [Waiter.entry]
      · rw [hrun]
        simp [Waiter.entry]
    · intro hbackground v hv hinteractive
      have hrank := hfirst.rank_le hv
      rw [hbackground, hinteractive] at hrank
      exact absurd hrank (by decide)
  · intro hidle hwaiting
    obtain ⟨w, hfirst⟩ := exists_first hwaiting
    refine ⟨w, hfirst.mem, (isTurn_iff hinv w.ticket).mpr ⟨w, hfirst, rfl, ?_⟩⟩
    have hnone : runningIn inner w.cls = 0 := by simp [runningIn, hidle]
    rw [hnone]
    exact cap_pos config w.cls

end AiDaemon.Sched
