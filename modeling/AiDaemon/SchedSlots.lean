import AiDaemon.Sched

/-!
# Preemption over whole runs

Three operations move the `paused` flag under different conditions: an
interactive arrival sets it on every background entry, attached or not;
`attach` sets it on a background entry that starts under interactive load; the
last interactive departure clears it everywhere.  `SlotInv` is what survives
all of them in any order.  A background entry that is admitted and not yet
attached is free to disagree while an interactive one runs, which is why the
second field asks for an attached entry.
-/

namespace AiDaemon.Sched

open Machine Ledger

def tickets (inner : Inner) : List Nat :=
  inner.running.map Running.ticket ++ inner.waiting.map Waiter.ticket

structure SlotInv (s : Scheduler) (inner : Inner) : Prop where
  interactive_unpaused : ∀ r ∈ inner.running, r.cls = .interactive → r.paused = false
  attached_paused : (∃ r ∈ inner.running, r.cls = .interactive) →
    ∀ r ∈ inner.running, r.cls = .background → r.backend ≠ none → r.reqId ≠ none →
      r.paused = true
  none_paused : (¬ ∃ r ∈ inner.running, r.cls = .interactive) →
    ∀ r ∈ inner.running, r.paused = false
  tickets_nodup : (tickets inner).Nodup
  tickets_lt : ∀ ticket ∈ tickets inner, ticket < inner.nextTicket
  class_cap : ∀ cls, runningIn inner cls ≤ s.cap cls

/-! ### Rewriting the running entries -/

@[simp] theorem pauseEntry_ticket (r : Running) : (pauseEntry r).ticket = r.ticket := by
  unfold pauseEntry; split <;> rfl

@[simp] theorem pauseEntry_cls (r : Running) : (pauseEntry r).cls = r.cls := by
  unfold pauseEntry; split <;> rfl

@[simp] theorem pauseEntry_request (r : Running) : (pauseEntry r).request = r.request := by
  unfold pauseEntry; split <;> rfl

/-- After an interactive arrival the flag says the class. -/
theorem pauseEntry_background {r : Running} (h : r.cls = .background) :
    (pauseEntry r).paused = true := by
  cases hp : r.paused with
  | false => simp [pauseEntry, h, hp]
  | true => simp [pauseEntry, hp]

theorem pauseEntry_interactive {r : Running} (h : r.cls = .interactive) : pauseEntry r = r := by
  simp [pauseEntry, h]

theorem map_updateFirst {β : Type} (g : Running → β) (p : Running → Bool)
    (f : Running → Running) (hf : ∀ r, g (f r) = g r) (running : List Running) :
    (updateFirst p f running).map g = running.map g := by
  induction running with
  | nil => rfl
  | cons r rs ih =>
    by_cases hp : p r
    · simp [updateFirst, hp, hf]
    · simp [updateFirst, hp, ih]

theorem mem_updateFirst {p : Running → Bool} {f : Running → Running} {running : List Running}
    {r : Running} (h : r ∈ updateFirst p f running) :
    r ∈ running ∨ ∃ old ∈ running, p old = true ∧ r = f old := by
  induction running with
  | nil => cases h
  | cons x xs ih =>
    by_cases hp : p x
    · simp only [updateFirst, hp, if_true, List.mem_cons] at h
      rcases h with rfl | h
      · exact Or.inr ⟨x, List.mem_cons_self, hp, rfl⟩
      · exact Or.inl (List.mem_cons_of_mem _ h)
    · simp only [updateFirst, hp, Bool.false_eq_true, if_false, List.mem_cons] at h
      rcases h with rfl | h
      · exact Or.inl List.mem_cons_self
      · rcases ih h with hmem | ⟨old, hold, hpo, rfl⟩
        · exact Or.inl (List.mem_cons_of_mem _ hmem)
        · exact Or.inr ⟨old, List.mem_cons_of_mem _ hold, hpo, rfl⟩

/-- Interactive load depends on the classes alone. -/
theorem interactive_congr {l r : List Running} (h : l.map Running.cls = r.map Running.cls) :
    (∃ x ∈ l, x.cls = .interactive) ↔ ∃ x ∈ r, x.cls = .interactive := by
  have hmem : ∀ running : List Running, (∃ x ∈ running, x.cls = .interactive) ↔
      Class.interactive ∈ running.map Running.cls := by
    intro running
    simp only [List.mem_map]
  rw [hmem, hmem, h]

theorem runningIn_congr {inner inner' : Inner}
    (h : inner'.running.map Running.cls = inner.running.map Running.cls) (cls : Class) :
    runningIn inner' cls = runningIn inner cls := by
  have hcount : ∀ running : List Running, (running.filter fun r => r.cls = cls).length =
      ((running.map Running.cls).filter fun c => c = cls).length := by
    intro running
    rw [List.filter_map, List.length_map]
    rfl
  simp only [runningIn, hcount, h]

theorem eq_of_ticket {s : Scheduler} {inner : Inner} (hinv : SlotInv s inner) {a b : Running}
    (ha : a ∈ inner.running) (hb : b ∈ inner.running) (h : a.ticket = b.ticket) : a = b := by
  have hnodup := (List.nodup_append.mp hinv.tickets_nodup).1
  exact List.inj_on_of_nodup_map hnodup ha hb h

/-! ### Each operation keeps the invariant -/

theorem enqueue_slots {s : Scheduler} {inner : Inner} (hinv : SlotInv s inner) (session : Text)
    (cls : Class) : SlotInv s (enqueue inner session cls) := by
  have htickets : tickets (enqueue inner session cls) = tickets inner ++ [inner.nextTicket] := by
    simp [tickets, enqueue]
  refine ⟨hinv.interactive_unpaused, hinv.attached_paused, hinv.none_paused, ?_, ?_,
    hinv.class_cap⟩
  · rw [htickets]
    refine List.nodup_append.mpr ⟨hinv.tickets_nodup, List.nodup_singleton _, ?_⟩
    intro a ha b hb heq
    have hlt := hinv.tickets_lt a ha
    rw [List.mem_singleton.mp hb] at heq
    omega
  · intro ticket hmem
    rw [htickets, List.mem_append, List.mem_singleton] at hmem
    show ticket < inner.nextTicket + 1
    rcases hmem with hold | rfl
    · have := hinv.tickets_lt ticket hold
      omega
    · omega

theorem runningIn_append (inner : Inner) (running : List Running) (r : Running)
    (h : inner.running.map Running.cls = (running ++ [r]).map Running.cls) (cls : Class) :
    runningIn inner cls =
      (running.filter fun x => x.cls = cls).length + if r.cls = cls then 1 else 0 := by
  have hcongr : runningIn inner cls = runningIn { inner with running := running ++ [r] } cls :=
    (runningIn_congr h.symm cls).symm
  rw [hcongr]
  simp only [runningIn, List.filter_append, List.length_append]
  by_cases hcls : r.cls = cls
  · simp [hcls]
  · simp [hcls]

section Admit

variable {s : Scheduler} {inner next : Inner} {ticket : Nat} {msgs : List SetPaused}

theorem Admitted.cls {me : Waiter} (h : Admitted s inner me next msgs) :
    next.running.map Running.cls = (inner.running ++ [me.entry]).map Running.cls := by
  rcases h.running with ⟨-, hrun, -⟩ | ⟨-, hrun, -⟩
  · rw [hrun, List.map_map]
    exact List.map_congr_left fun r _ => pauseEntry_cls r
  · rw [hrun]

/-- A turn moves one ticket from the queue to the running entries. -/
theorem Admitted.tickets_perm {me : Waiter} (h : Admitted s inner me next msgs)
    (hinv : SlotInv s inner) : (tickets next).Perm (tickets inner) := by
  have hrunning : next.running.map Running.ticket =
      inner.running.map Running.ticket ++ [me.ticket] := by
    rcases h.running with ⟨-, hrun, -⟩ | ⟨-, hrun, -⟩
    · rw [hrun, List.map_map]
      simp [Function.comp_def, Waiter.entry]
    · rw [hrun]
      simp [Waiter.entry]
  have hwait : (me.ticket :: next.waiting.map Waiter.ticket).Perm
      (inner.waiting.map Waiter.ticket) := by
    have hnodup := (List.nodup_append.mp hinv.tickets_nodup).2.1
    have hfilter : next.waiting.map Waiter.ticket =
        (inner.waiting.map Waiter.ticket).erase me.ticket := by
      rw [hnodup.erase_eq_filter, h.waiting, List.filter_map]
      congr 1
      apply List.filter_congr
      intro w _
      rw [Bool.eq_iff_iff]
      simp
    rw [hfilter]
    exact (List.perm_cons_erase (List.mem_map_of_mem h.mem)).symm
  simp only [tickets, hrunning, List.append_assoc, List.singleton_append]
  exact hwait.append_left _

/-- The count of a class is below `2^32`, so the cast in `is_turn` did not
    truncate it. -/
theorem Admitted.class_cap {me : Waiter} (h : Admitted s inner me next msgs)
    (hinv : SlotInv s inner) (cls : Class) : runningIn next cls ≤ s.cap cls := by
  have hcap := h.below_cap
  have hold := hinv.class_cap cls
  have hlt : s.cap cls < 2 ^ 32 := by
    cases cls with
    | interactive => exact s.interactive_u32
    | background => exact s.background_u32
  rw [runningIn_append next inner.running me.entry h.cls cls]
  by_cases hmine : me.cls = cls
  · subst hmine
    have hmod : runningIn inner me.cls % 2 ^ 32 = runningIn inner me.cls :=
      Nat.mod_eq_of_lt (by omega)
    rw [hmod] at hcap
    simp only [Waiter.entry, if_true]
    exact hcap
  · simp only [Waiter.entry, hmine, if_false]
    exact hold

theorem admitTurn_slots (hinv : SlotInv s inner)
    (h : admitTurn s inner ticket = some (next, msgs)) : SlotInv s next := by
  obtain ⟨me, -, hadmitted⟩ := admitTurn_cases h
  have hperm := hadmitted.tickets_perm hinv
  have hcap := hadmitted.class_cap hinv
  have hnodup : (tickets next).Nodup := hperm.nodup_iff.mpr hinv.tickets_nodup
  have hlt : ∀ t ∈ tickets next, t < next.nextTicket := by
    intro t ht
    rw [hadmitted.nextTicket]
    exact hinv.tickets_lt t (hperm.mem_iff.mp ht)
  rcases hadmitted.running with ⟨hint, hrun, -⟩ | ⟨hbg, hrun, -⟩
  · -- an interactive arrival: the flag of every entry says its class
    refine ⟨?_, ?_, ?_, hnodup, hlt, hcap⟩
    · intro r hr hrc
      rw [hrun] at hr
      obtain ⟨old, hold, rfl⟩ := List.mem_map.mp hr
      rw [pauseEntry_cls] at hrc
      rw [pauseEntry_interactive hrc]
      rcases List.mem_append.mp hold with hold | hold
      · exact hinv.interactive_unpaused old hold hrc
      · rw [List.mem_singleton.mp hold]
        rfl
    · intro _ r hr hrc _ _
      rw [hrun] at hr
      obtain ⟨old, -, rfl⟩ := List.mem_map.mp hr
      rw [pauseEntry_cls] at hrc
      exact pauseEntry_background hrc
    · intro hnone
      refine absurd ⟨pauseEntry me.entry, ?_, ?_⟩ hnone
      · rw [hrun]
        exact List.mem_map_of_mem (List.mem_append_right _ List.mem_cons_self)
      · rw [pauseEntry_cls]
        exact hint
  · -- a background arrival: no load of its own, not attached and not paused
    have hmem : ∀ r ∈ next.running, r ∈ inner.running ∨ r = me.entry := by
      intro r hr
      rwa [hrun, List.mem_append, List.mem_singleton] at hr
    have hload : (∃ r ∈ next.running, r.cls = .interactive) ↔
        ∃ r ∈ inner.running, r.cls = .interactive := by
      simp [hrun, Waiter.entry, hbg]
    refine ⟨?_, ?_, ?_, hnodup, hlt, hcap⟩
    · intro r hr hrc
      rcases hmem r hr with hr | rfl
      · exact hinv.interactive_unpaused r hr hrc
      · rfl
    · intro hsome r hr hrc hback hreq
      rcases hmem r hr with hr | rfl
      · exact hinv.attached_paused (hload.mp hsome) r hr hrc hback hreq
      · exact absurd rfl hback
    · intro hnone r hr
      rw [hload] at hnone
      rcases hmem r hr with hr | rfl
      · exact hinv.none_paused hnone r hr
      · rfl

end Admit

theorem attach_slots {s : Scheduler} {inner : Inner} (hinv : SlotInv s inner) (ticket : Nat)
    (backend : Text) (reqId : Nat) : SlotInv s (attach inner ticket backend reqId).1 := by
  have hcls : (attach inner ticket backend reqId).1.running.map Running.cls =
      inner.running.map Running.cls :=
    map_updateFirst Running.cls _ (attachEntry backend reqId _) (fun _ => rfl) inner.running
  have htickets : tickets (attach inner ticket backend reqId).1 = tickets inner := by
    simp only [tickets, attach]
    rw [map_updateFirst Running.ticket _ (attachEntry backend reqId _) fun _ => rfl]
  refine ⟨?_, ?_, ?_, ?_, ?_, ?_⟩
  · intro r hr hrc
    rcases mem_updateFirst hr with hold | ⟨old, hold, -, rfl⟩
    · exact hinv.interactive_unpaused r hold hrc
    · have holdc : old.cls = .interactive := hrc
      simp only [attachEntry, holdc, reduceCtorEq, false_and, if_false]
      exact hinv.interactive_unpaused old hold holdc
  · intro hload r hr hrc hback hreq
    have hload' := (interactive_congr hcls).mp hload
    rcases mem_updateFirst hr with hold | ⟨old, hold, hticket, rfl⟩
    · exact hinv.attached_paused hload' r hold hrc hback hreq
    · -- the interactive entry holds another ticket, so `attach` saw it
      have holdc : old.cls = .background := hrc
      obtain ⟨x, hx, hxc⟩ := hload'
      have hxt : x.ticket ≠ ticket := by
        intro heq
        have hsame := eq_of_ticket hinv hx hold (heq.trans (of_decide_eq_true hticket).symm)
        rw [hsame, holdc] at hxc
        cases hxc
      have hpause : shouldPause inner ticket = true := by
        simp only [shouldPause, List.any_eq_true, decide_eq_true_eq]
        exact ⟨x, hx, hxc, hxt⟩
      simp [attachEntry, holdc, hpause]
  · intro hnone r hr
    rw [interactive_congr hcls] at hnone
    rcases mem_updateFirst hr with hold | ⟨old, hold, -, rfl⟩
    · exact hinv.none_paused hnone r hold
    · have hpause : shouldPause inner ticket = false := by
        rw [Bool.eq_false_iff]
        intro hany
        simp only [shouldPause, List.any_eq_true, decide_eq_true_eq] at hany
        obtain ⟨x, hx, hxc, -⟩ := hany
        exact hnone ⟨x, hx, hxc⟩
      simp only [attachEntry, hpause, Bool.false_eq_true, and_false, if_false]
      exact hinv.none_paused hnone old hold
  · rw [htickets]
    exact hinv.tickets_nodup
  · rw [htickets]
    exact hinv.tickets_lt
  · intro cls
    rw [runningIn_congr hcls]
    exact hinv.class_cap cls

/-- The entries left once `ticket` is gone. -/
def remaining (inner : Inner) (ticket : Nat) : List Running :=
  inner.running.filter fun r => r.ticket ≠ ticket

/-- `release` either leaves the flags alone, some interactive entry still
    running, or clears every one of them. -/
theorem release_cases (inner : Inner) (ticket : Nat) :
    ((∃ r ∈ remaining inner ticket, r.cls = .interactive) ∧
        release inner ticket = ({ inner with running := remaining inner ticket }, [])) ∨
      ((¬ ∃ r ∈ remaining inner ticket, r.cls = .interactive) ∧
        release inner ticket =
          ({ inner with running := (remaining inner ticket).map resumeEntry },
            (remaining inner ticket).filterMap resumeMsg)) := by
  by_cases hload : ∃ r ∈ remaining inner ticket, r.cls = .interactive
  · left
    refine ⟨hload, ?_⟩
    have hany : (remaining inner ticket).any (fun r => r.cls = .interactive) = true := by
      simpa only [List.any_eq_true, decide_eq_true_eq] using hload
    simp only [remaining] at hany
    simp only [release, hany, if_true, remaining]
  · right
    refine ⟨hload, ?_⟩
    have hany : (remaining inner ticket).any (fun r => r.cls = .interactive) = false := by
      rw [Bool.eq_false_iff]
      simpa only [ne_eq, List.any_eq_true, decide_eq_true_eq] using hload
    simp only [remaining] at hany
    simp only [release, hany, Bool.false_eq_true, if_false, remaining]

theorem release_slots {s : Scheduler} {inner : Inner} (hinv : SlotInv s inner) (ticket : Nat) :
    SlotInv s (release inner ticket).1 := by
  have hsub : (remaining inner ticket).Sublist inner.running := List.filter_sublist
  have hticketsSub : ((remaining inner ticket).map Running.ticket ++
      inner.waiting.map Waiter.ticket).Sublist (tickets inner) :=
    (hsub.map Running.ticket).append (List.Sublist.refl _)
  have hcount : ∀ cls, ((remaining inner ticket).filter fun r => r.cls = cls).length ≤
      s.cap cls := fun cls =>
    Nat.le_trans (hsub.filter _).length_le (hinv.class_cap cls)
  rcases release_cases inner ticket with ⟨hload, heq⟩ | ⟨hnone, heq⟩
  · rw [heq]
    refine ⟨?_, ?_, ?_, hticketsSub.nodup hinv.tickets_nodup, ?_, hcount⟩
    · intro r hr hrc
      exact hinv.interactive_unpaused r (hsub.subset hr) hrc
    · intro _ r hr hrc hback hreq
      obtain ⟨x, hx, hxc⟩ := hload
      exact hinv.attached_paused ⟨x, hsub.subset hx, hxc⟩ r (hsub.subset hr) hrc hback hreq
    · intro hno
      exact absurd hload hno
    · intro t ht
      exact hinv.tickets_lt t (hticketsSub.subset ht)
  · rw [heq]
    have hcls : ((remaining inner ticket).map resumeEntry).map Running.cls =
        (remaining inner ticket).map Running.cls := by
      rw [List.map_map]
      rfl
    have htickets : ((remaining inner ticket).map resumeEntry).map Running.ticket =
        (remaining inner ticket).map Running.ticket := by
      rw [List.map_map]
      rfl
    have hflag : ∀ r ∈ (remaining inner ticket).map resumeEntry, r.paused = false := by
      intro r hr
      obtain ⟨old, -, rfl⟩ := List.mem_map.mp hr
      rfl
    refine ⟨fun r hr _ => hflag r hr, ?_, fun _ => hflag, ?_, ?_, ?_⟩
    · intro hload
      exact absurd ((interactive_congr hcls).mp hload) hnone
    · simp only [tickets, htickets]
      exact hticketsSub.nodup hinv.tickets_nodup
    · intro t ht
      simp only [tickets, htickets] at ht
      exact hinv.tickets_lt t (hticketsSub.subset ht)
    · intro cls
      have hsame :
          runningIn { inner with running := (remaining inner ticket).map resumeEntry } cls =
            runningIn { inner with running := remaining inner ticket } cls :=
        runningIn_congr hcls cls
      rw [hsame]
      exact hcount cls

/-- The invariant reads nothing of the KV accounting. -/
theorem SlotInv.congr {s : Scheduler} {inner inner' : Inner} (hinv : SlotInv s inner)
    (hrunning : inner'.running = inner.running) (hwaiting : inner'.waiting = inner.waiting)
    (hticket : inner'.nextTicket = inner.nextTicket) : SlotInv s inner' := by
  have htickets : tickets inner' = tickets inner := by simp only [tickets, hrunning, hwaiting]
  refine ⟨?_, ?_, ?_, ?_, ?_, ?_⟩
  · rw [hrunning]
    exact hinv.interactive_unpaused
  · rw [hrunning]
    exact hinv.attached_paused
  · rw [hrunning]
    exact hinv.none_paused
  · rw [htickets]
    exact hinv.tickets_nodup
  · rw [htickets, hticket]
    exact hinv.tickets_lt
  · intro cls
    rw [runningIn, hrunning]
    exact hinv.class_cap cls

theorem reserveKv_slots {s : Scheduler} {inner : Inner} (order : IterOrder (Row Text KvEntry))
    (now : Nat) (session backend : Text) (cls : Class) (bytes : Nat) :
    let next := (reserveKv s inner order now session backend cls bytes).val.inner
    next.running = inner.running ∧ next.waiting = inner.waiting ∧
      next.nextTicket = inner.nextTicket := by
  simp only [reserveKv]
  split
  · split
    · exact ⟨rfl, rfl, rfl⟩
    · simp only [Traced.val_bind]
      split <;> exact ⟨rfl, rfl, rfl⟩
  · exact ⟨rfl, rfl, rfl⟩

theorem step_slots {s : Scheduler} {inner : Inner} (hinv : SlotInv s inner) (call : Call) :
    SlotInv s (step s inner call).val := by
  cases call with
  | enqueue session cls => exact enqueue_slots hinv session cls
  | admitTurn ticket =>
    simp only [step, Traced.val_pure]
    cases hadmit : admitTurn s inner ticket with
    | none => exact hinv
    | some next => exact admitTurn_slots hinv hadmit
  | attach ticket backend reqId => exact attach_slots hinv ticket backend reqId
  | release ticket => exact release_slots hinv ticket
  | charge now session tokens => exact hinv.congr rfl rfl rfl
  | reserveKv order now session backend cls bytes =>
    obtain ⟨hrun, hwait, hticket⟩ := reserveKv_slots order now session backend cls bytes
    exact hinv.congr hrun hwait hticket
  | markIdle now session =>
    simp only [step, Traced.val_pure, markIdle]
    split <;> exact hinv.congr rfl rfl rfl
  | releaseKv session =>
    simp only [step, releaseKv]
    split <;> exact hinv.congr rfl rfl rfl

theorem new_slots (s : Scheduler) : SlotInv s Inner.new := by
  refine ⟨?_, ?_, ?_, List.nodup_nil, ?_, fun _ => Nat.zero_le _⟩
  · intro r hr
    cases hr
  · intro _ r hr
    cases hr
  · intro _ r hr
    cases hr
  · intro t ht
    cases ht

theorem run_slots (s : Scheduler) (calls : List Call) : SlotInv s (run s Inner.new calls).val :=
  run_induction (P := SlotInv s) (fun _ call hinv => step_slots hinv call) (new_slots s) calls

end AiDaemon.Sched
