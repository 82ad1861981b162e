import AiDaemon.SchedKv

/-!
# Who is evicted (`sched.rs`: the plan of `reserve_kv`)

The plan is made by two loops, one inside the other, that both break as soon as
what is freed is enough.  What they compute is one prefix of one list: the idle
background caches of other sessions from the least recently used on, and then
the idle interactive ones.
-/

namespace AiDaemon.Sched

open Machine Ledger

/-- `a` goes before `b`, or they are used equally recently. -/
def EvictsBefore (a b : Row Text KvEntry) : Prop :=
  (a.2.cls = .background ∧ b.2.cls = .interactive) ∨
    (a.2.cls = b.2.cls ∧ a.2.lastUsed ≤ b.2.lastUsed)

/-- All caches that a reservation for `session` may take, each once, in the order
    in which they go. -/
structure EvictionOrder (kv : Table Text KvEntry) (session : Text)
    (l : List (Row Text KvEntry)) : Prop where
  nodup : (l.map Sigma.fst).Nodup
  mem_iff : ∀ e, e ∈ l ↔ kv.lookup e.1 = some e.2 ∧ e.1 ≠ session ∧ e.2.active = false
  sorted : l.Pairwise EvictsBefore

/-- With these caches gone, what `session` asks for fits. -/
def Room (s : Scheduler) (inner : Inner) (session : Text) (bytes : Nat)
    (gone : List (Row Text KvEntry)) : Prop :=
  inner.kvUsed - (gone.map rowBytes).sum + (bytes - previousBytes inner session) ≤ s.kvBudget

instance (s : Scheduler) (inner : Inner) (session : Text) (bytes : Nat)
    (gone : List (Row Text KvEntry)) : Decidable (Room s inner session bytes gone) :=
  inferInstanceAs (Decidable (_ ≤ _))

def isBackground (e : Row Text KvEntry) : Bool := e.2.cls = .background

/-- The first `n` of an order are evicted, and that is the shortest prefix that is enough. -/
structure ShortestPrefix (s : Scheduler) (inner : Inner) (session : Text) (bytes : Nat)
    (l : List (Row Text KvEntry)) (n : Nat) : Prop where
  length : n ≤ l.length
  enough : Room s inner session bytes (l.take n)
  shortest : ∀ m < n, ¬ Room s inner session bytes (l.take m)

/-! ### The list -/

theorem mem_candidates {kv : Table Text KvEntry} {order : IterOrder (Row Text KvEntry)}
    {session : Text} {pass : Class} {e : Row Text KvEntry}
    (h : e ∈ candidates kv order session pass) : e.2.cls = pass := by
  have hmem := (candidates_perm kv order session pass).mem_iff.mp h
  simpa using (List.mem_filter.mp hmem).2

theorem candidates_sorted (kv : Table Text KvEntry) (order : IterOrder (Row Text KvEntry))
    (session : Text) (pass : Class) : (candidates kv order session pass).Pairwise EvictsBefore := by
  have htotal : Std.Total fun a b : Row Text KvEntry => a.2.lastUsed ≤ b.2.lastUsed :=
    ⟨fun a b => Nat.le_total _ _⟩
  have htrans : IsTrans (Row Text KvEntry) fun a b => a.2.lastUsed ≤ b.2.lastUsed :=
    ⟨fun _ _ _ => Nat.le_trans⟩
  have hsorted : (candidates kv order session pass).Pairwise
      fun a b => a.2.lastUsed ≤ b.2.lastUsed := List.pairwise_insertionSort _ _
  apply hsorted.imp_of_mem
  intro a b ha hb hle
  exact Or.inr ⟨(mem_candidates ha).trans (mem_candidates hb).symm, hle⟩

theorem evictable_order (kv : Table Text KvEntry) (order : IterOrder (Row Text KvEntry))
    (session : Text) : EvictionOrder kv session (evictable kv order session) where
  nodup := evictable_nodup kv order session
  mem_iff _ := mem_evictable
  sorted := by
    simp only [evictable, List.flatMap_cons, List.flatMap_nil, List.append_nil]
    apply List.pairwise_append.mpr
    refine ⟨candidates_sorted kv order session .background,
      candidates_sorted kv order session .interactive, ?_⟩
    intro a ha b hb
    exact Or.inl ⟨mem_candidates ha, mem_candidates hb⟩

/-- In an order the background caches are a prefix. -/
theorem EvictionOrder.take_background {kv : Table Text KvEntry} {session : Text}
    {l : List (Row Text KvEntry)} (h : EvictionOrder kv session l) :
    l.take (l.filter isBackground).length = l.filter isBackground := by
  have hsorted := h.sorted
  clear h
  induction l with
  | nil => rfl
  | cons a as ih =>
    obtain ⟨hhead, htail⟩ := List.pairwise_cons.mp hsorted
    by_cases ha : isBackground a = true
    · rw [List.filter_cons_of_pos ha, List.length_cons, List.take_succ_cons, ih htail]
    · -- nothing in the background stands behind an interactive cache
      have hnone : (a :: as).filter isBackground = [] := by
        rw [List.filter_cons_of_neg ha]
        apply List.filter_eq_nil_iff.mpr
        intro b hb hbackground
        rcases hhead b hb with ⟨hback, -⟩ | ⟨hsame, -⟩
        · exact ha (by simp [isBackground, hback])
        · exact ha (by simpa [isBackground, hsame] using hbackground)
      rw [hnone]
      rfl

/-! ### The prefix -/

section Reserve

variable {s : Scheduler} {inner : Inner} (order : IterOrder (Row Text KvEntry)) (session : Text)
  (bytes : Nat)

theorem evicted_eq_take (s : Scheduler) (inner : Inner) :
    evicted s inner order session bytes =
      (evictable inner.kv order session).take (evicted s inner order session bytes).length :=
  List.prefix_iff_eq_take.mp (shed_isPrefix rowBytes _ _)

/-- Where the request fits at all, the caches that go are the shortest prefix that is
    enough. -/
theorem evicted_shortest (hinv : KvInv s inner) (hfits : Fits s inner session bytes) :
    ShortestPrefix s inner session bytes (evictable inner.kv order session)
      (evicted s inner order session bytes).length where
  length := (evicted_sublist order session bytes s inner).length_le
  enough := by
    rw [← evicted_eq_take]
    by_cases hgrow : previousBytes inner session < bytes
    · exact (evicted_enough_iff order session bytes hinv hgrow).mpr hfits
    · have hle := hinv.used_le
      simp only [Room]
      omega
  shortest m hm hroom := by
    have hshort := shed_shortest rowBytes _ _ hm
    have hle := hinv.used_le
    simp only [Room] at hroom
    omega

end Reserve

/-- A shortest prefix takes nothing where nothing has to go, and no interactive cache
    where the background ones are enough. -/
theorem ShortestPrefix.background {s : Scheduler} {inner : Inner} {session : Text} {bytes n : Nat}
    {l : List (Row Text KvEntry)} (h : ShortestPrefix s inner session bytes l n)
    (horder : EvictionOrder inner.kv session l)
    (hroom : Room s inner session bytes (l.filter isBackground)) :
    ∀ e ∈ l.take n, e.2.cls = .background := by
  have hle : n ≤ (l.filter isBackground).length := by
    by_contra hlong
    apply h.shortest _ (Nat.lt_of_not_le hlong)
    rw [horder.take_background]
    exact hroom
  intro e he
  have hmem : e ∈ l.take (l.filter isBackground).length :=
    (List.take_prefix_take_left hle).subset he
  rw [horder.take_background] at hmem
  simpa [isBackground] using (List.mem_filter.mp hmem).2

theorem ShortestPrefix.nothing {s : Scheduler} {inner : Inner} {session : Text} {bytes n : Nat}
    {l : List (Row Text KvEntry)} (h : ShortestPrefix s inner session bytes l n)
    (hroom : Room s inner session bytes []) : n = 0 := by
  by_contra hn
  exact h.shortest 0 (Nat.pos_of_ne_zero hn) hroom

/-- In every reachable state a reservation that succeeds evicts the shortest prefix that
    makes it fit, of the idle background caches of other sessions and then their idle
    interactive ones, each from the least recently used on. -/
theorem eviction_shortest (config : Config) (calls : List Call)
    (order : IterOrder (Row Text KvEntry)) (now : Nat) (session backend : Text) (cls : Class)
    (bytes : Nat) (ids : List Text) :
    let s := Scheduler.new config
    let inner := (run s Inner.new calls).val
    (reserveKv s inner order now session backend cls bytes).val.result = .ok ids →
    ∃ l n, EvictionOrder inner.kv session l ∧ ShortestPrefix s inner session bytes l n ∧
      ids = (l.take n).map Sigma.fst ∧
      (Room s inner session bytes (l.filter isBackground) →
        ∀ e ∈ l.take n, e.2.cls = .background) ∧
      (Room s inner session bytes [] → ids = []) := by
  intro s inner hok
  have hinv : KvInv s inner := (run_kv (new_kv s) calls).2
  by_cases hfits : Fits s inner session bytes
  · have hgranted := (reserveKv_granted order now session backend cls bytes hinv hfits).2
    rw [hgranted, Except.ok.injEq] at hok
    have horder := evictable_order inner.kv order session
    have hshortest := evicted_shortest order session bytes hinv hfits
    have hids : ids = ((evictable inner.kv order session).take
        (evicted s inner order session bytes).length).map Sigma.fst := by
      rw [← evicted_eq_take, hok]
    refine ⟨evictable inner.kv order session, _, horder, hshortest, hids,
      hshortest.background horder, ?_⟩
    intro hroom
    rw [hids, hshortest.nothing hroom]
    rfl
  · obtain ⟨-, text, hrefused⟩ := reserveKv_refused order now session backend cls bytes hinv hfits
    rw [hrefused] at hok
    cases hok

/-- A budget of a thousand bytes. -/
def smallBudget : Config := ⟨1000, 2, 1, by decide⟩

/-- An idle chat of 400 bytes, and an idle batch of 200. -/
def idleCaches : List Call :=
  [.reserveKv (.stored _) 1 "chat".toList "mock".toList .interactive 400,
    .markIdle 2 "chat".toList,
    .reserveKv (.stored _) 3 "batch".toList "mock".toList .background 200,
    .markIdle 4 "batch".toList]

/-- The batch goes, and the chat, which is older, stays. -/
theorem eviction_shortest_batch :
    let s := Scheduler.new smallBudget
    let inner := (run s Inner.new idleCaches).val
    ∃ l n, EvictionOrder inner.kv "new".toList l ∧ ShortestPrefix s inner "new".toList 500 l n ∧
      ["batch".toList] = (l.take n).map Sigma.fst ∧
      (Room s inner "new".toList 500 (l.filter isBackground) →
        ∀ e ∈ l.take n, e.2.cls = .background) ∧
      (Room s inner "new".toList 500 [] → ["batch".toList] = []) :=
  eviction_shortest smallBudget idleCaches (.stored _) 5 "new".toList "mock".toList .interactive
    500 ["batch".toList] (by rfl)

end AiDaemon.Sched
