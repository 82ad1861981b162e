import Mathlib.Data.List.AList
import Mathlib.Algebra.BigOperators.Group.List.Basic
import Mathlib.Data.List.Perm.Basic
import Mathlib.Data.List.Sort
import Mathlib.Tactic.Common
import Mathlib.Algebra.Order.BigOperators.Group.List
import Mathlib.Algebra.Order.Ring.Nat
import Mathlib.Data.UInt

/-!
# Weighted tables and greedy shedding

A hash table is modelled as Mathlib's `AList`: a list of entries with pairwise
distinct keys.  The position of an entry in that list means nothing, so code
that iterates over the table is given an arbitrary `IterOrder`, one permutation
of the entries per call.

A table whose values carry their own key is what is left after writing its
values out in any order and reading them back.  The next part gives every entry
a weight and says how the total moves under `insert` and `erase`.  The last is
greedy shedding: walk a list and take entries until their weight covers a
demand.  It takes the shortest prefix that covers the demand, and covers it
whenever the whole list would.
-/

namespace AiDaemon.Ledger

/-- A hash table from `κ` to `ν`. -/
abbrev Table (κ ν : Type) := AList (fun _ : κ => ν)

/-- A key with its value, as iteration yields them. -/
abbrev Row (κ ν : Type) := Sigma fun _ : κ => ν

/-- The order in which one iteration over a hash table visits its entries: any
    permutation, since the hasher decides it. -/
structure IterOrder (α : Type) where
  visit : List α → List α
  perm : ∀ l, (visit l).Perm l

/-- Iteration in the stored order. -/
def IterOrder.stored (α : Type) : IterOrder α := ⟨id, fun _ => .refl _⟩

variable {κ ν α : Type}

/-- One place fewer in a list. -/
theorem countP_eraseIdx {l : List α} {i : Nat} {a : α} (h : l[i]? = some a) (p : α → Bool) :
    (l.eraseIdx i).countP p + (if p a then 1 else 0) = l.countP p := by
  obtain ⟨hlt, hget⟩ := List.getElem?_eq_some_iff.mp h
  have hperm := List.getElem_cons_eraseIdx_perm hlt
  rw [hget] at hperm
  rw [← hperm.countP_eq p, List.countP_cons]

/-! ### Weighted rows -/

/-- The summed weight of a list of rows. -/
def rowsWeight (w : ν → Nat) (rows : List (Row κ ν)) : Nat := (rows.map fun e => w e.2).sum

variable (w : ν → Nat)

@[simp] theorem rowsWeight_nil : rowsWeight w ([] : List (Row κ ν)) = 0 := rfl

@[simp] theorem rowsWeight_cons (e : Row κ ν) (rows : List (Row κ ν)) :
    rowsWeight w (e :: rows) = w e.2 + rowsWeight w rows := by
  simp [rowsWeight]

@[simp] theorem rowsWeight_append (l r : List (Row κ ν)) :
    rowsWeight w (l ++ r) = rowsWeight w l + rowsWeight w r := by
  simp [rowsWeight]

theorem rowsWeight_perm {l r : List (Row κ ν)} (h : l.Perm r) :
    rowsWeight w l = rowsWeight w r :=
  (h.map _).sum_eq

/-- A predicate splits the weight into the rows that meet it and the rest. -/
theorem rowsWeight_filter_add (p : Row κ ν → Bool) (rows : List (Row κ ν)) :
    rowsWeight w (rows.filter p) + rowsWeight w (rows.filter fun e => !p e) =
      rowsWeight w rows := by
  rw [← rowsWeight_append]
  exact rowsWeight_perm w (List.filter_append_perm p rows)

variable [DecidableEq κ]

/-! ### Lookup -/

theorem mem_entries_iff {t : Table κ ν} {k : κ} {v : ν} :
    (⟨k, v⟩ : Row κ ν) ∈ t.entries ↔ t.lookup k = some v := by
  have h := AList.mem_lookup_iff (a := k) (b := v) (s := t)
  exact h.symm

theorem kerase_entries (t : Table κ ν) (k : κ) : (t.erase k).entries = t.entries.kerase k := rfl

theorem erase_eq_self {t : Table κ ν} {k : κ} (h : t.lookup k = none) : t.erase k = t := by
  apply AList.ext
  exact List.kerase_of_notMem_keys (AList.lookup_eq_none.mp h)

/-- Taking back what was just put in under a fresh key. -/
theorem erase_insert_self {t : Table κ ν} {k : κ} (h : t.lookup k = none) (v : ν) :
    (t.insert k v).erase k = t := by
  have hfresh : t.entries.kerase k = t.entries :=
    List.kerase_of_notMem_keys (AList.lookup_eq_none.mp h)
  apply AList.ext
  rw [kerase_entries, AList.entries_insert, hfresh]
  exact List.kerase_cons_eq rfl

theorem keys_length_insert_le (t : Table κ ν) (k : κ) (v : ν) :
    (t.insert k v).keys.length ≤ t.keys.length + 1 := by
  rw [AList.keys_insert, List.length_cons]
  exact Nat.succ_le_succ List.erase_sublist.length_le

/-- The entries of `more` go over those of the table. -/
def extend (t more : Table κ ν) : Table κ ν := more ∪ t

@[simp] theorem lookup_extend (t more : Table κ ν) (k : κ) :
    (extend t more).lookup k = (more.lookup k).or (t.lookup k) := by
  by_cases hmem : k ∈ more
  · obtain ⟨v, hv⟩ := Option.isSome_iff_exists.1 (AList.lookup_isSome.2 hmem)
    rw [extend, AList.lookup_union_left hmem, hv]
    rfl
  · rw [extend, AList.lookup_union_right hmem, AList.lookup_eq_none.2 hmem]
    rfl

/-- Remove every key of a list. -/
def eraseAll (keys : List κ) (t : Table κ ν) : Table κ ν :=
  keys.foldl (fun t k => t.erase k) t

theorem lookup_eraseAll (keys : List κ) (t : Table κ ν) (k : κ) :
    (eraseAll keys t).lookup k = if k ∈ keys then none else t.lookup k := by
  induction keys generalizing t with
  | nil => simp [eraseAll]
  | cons key keys ih =>
    have hstep : eraseAll (key :: keys) t = eraseAll keys (t.erase key) := rfl
    rw [hstep, ih]
    by_cases hk : k = key
    · subst hk
      simp [AList.lookup_erase]
    · simp [hk, AList.lookup_erase_ne hk]

/-! ### Values that carry their own key -/

/-- Keep the entries whose key meets `p`. -/
def retain (p : κ → Bool) (t : Table κ ν) : Table κ ν :=
  ⟨t.entries.filter fun e => p e.1, List.NodupKeys.sublist List.filter_sublist t.nodupKeys⟩

theorem lookup_retain (p : κ → Bool) (t : Table κ ν) (k : κ) :
    (retain p t).lookup k = if p k then t.lookup k else none := by
  apply Option.ext
  intro v
  rw [← mem_entries_iff]
  by_cases hp : p k = true
  · rw [if_pos hp, ← mem_entries_iff]
    simp [retain, hp]
  · rw [if_neg hp]
    simp [retain, hp]

/-- The values, in the stored order. -/
def values (t : Table κ ν) : List ν := t.entries.map Sigma.snd

/-- The table of a list of values; of two under one key the later stays. -/
def collect (key : ν → κ) (l : List ν) : Table κ ν :=
  l.foldl (fun t v => t.insert (key v) v) ∅

/-- Every value is stored under its own key. -/
def Keyed (key : ν → κ) (t : Table κ ν) : Prop := ∀ k v, t.lookup k = some v → key v = k

theorem keyed_empty (key : ν → κ) : Keyed key (∅ : Table κ ν) := by
  intro k v h
  simp at h

theorem Keyed.insert {key : ν → κ} {t : Table κ ν} (h : Keyed key t) (v : ν) :
    Keyed key (t.insert (key v) v) := by
  intro k u hu
  by_cases hk : k = key v
  · subst hk
    rw [AList.lookup_insert] at hu
    cases hu
    rfl
  · rw [AList.lookup_insert_ne hk] at hu
    exact h k u hu

theorem Keyed.retain {key : ν → κ} {t : Table κ ν} (h : Keyed key t) (p : κ → Bool) :
    Keyed key (retain p t) := by
  intro k v hv
  rw [lookup_retain] at hv
  split at hv
  · exact h k v hv
  · cases hv

theorem keyed_foldl {key : ν → κ} (l : List ν) {t : Table κ ν} (h : Keyed key t) :
    Keyed key (l.foldl (fun t v => t.insert (key v) v) t) := by
  induction l generalizing t with
  | nil => exact h
  | cons v l ih => exact ih (h.insert v)

theorem keyed_collect (key : ν → κ) (l : List ν) : Keyed key (collect key l) :=
  keyed_foldl l (keyed_empty key)

theorem lookup_foldl_insert {key : ν → κ} {l : List ν} (hnodup : (l.map key).Nodup)
    (t : Table κ ν) (k : κ) (v : ν) :
    (l.foldl (fun t v => t.insert (key v) v) t).lookup k = some v ↔
      (v ∈ l ∧ key v = k) ∨ (k ∉ l.map key ∧ t.lookup k = some v) := by
  induction l generalizing t with
  | nil => simp
  | cons u l ih =>
    obtain ⟨hnot, hrest⟩ := List.nodup_cons.mp hnodup
    rw [List.foldl_cons, ih hrest]
    by_cases hk : k = key u
    · -- no later value has this key, so the head's is the one that stays
      subst hk
      rw [AList.lookup_insert]
      constructor
      · rintro (⟨hmem, hkey⟩ | ⟨-, huv⟩)
        · exact Or.inl ⟨List.mem_cons_of_mem _ hmem, hkey⟩
        · cases huv
          exact Or.inl ⟨List.mem_cons_self, rfl⟩
      · rintro (⟨hmem, hkey⟩ | ⟨habs, -⟩)
        · rcases List.mem_cons.mp hmem with rfl | hmem
          · exact Or.inr ⟨hnot, rfl⟩
          · exact absurd (hkey ▸ List.mem_map_of_mem hmem) hnot
        · exact absurd (by simp) habs
    · rw [AList.lookup_insert_ne hk]
      simp only [List.mem_cons, List.map_cons, not_or]
      constructor
      · rintro (⟨hmem, hkey⟩ | ⟨habs, hlook⟩)
        · exact Or.inl ⟨Or.inr hmem, hkey⟩
        · exact Or.inr ⟨⟨hk, habs⟩, hlook⟩
      · rintro (⟨rfl | hmem, hkey⟩ | ⟨⟨-, habs⟩, hlook⟩)
        · exact absurd hkey.symm hk
        · exact Or.inl ⟨hmem, hkey⟩
        · exact Or.inr ⟨habs, hlook⟩

theorem mem_values_iff {t : Table κ ν} {v : ν} : v ∈ values t ↔ ∃ k, t.lookup k = some v := by
  constructor
  · intro hv
    obtain ⟨e, he, rfl⟩ := List.mem_map.mp hv
    exact ⟨e.1, mem_entries_iff.mp he⟩
  · rintro ⟨k, hk⟩
    exact List.mem_map.mpr ⟨⟨k, v⟩, mem_entries_iff.mpr hk, rfl⟩

theorem mem_values_erase {t : Table κ ν} {k : κ} {v : ν} (h : v ∈ values (t.erase k)) :
    v ∈ values t := by
  obtain ⟨k', hk'⟩ := mem_values_iff.mp h
  by_cases hsame : k' = k
  · subst hsame
    rw [AList.lookup_erase] at hk'
    cases hk'
  · rw [AList.lookup_erase_ne hsame] at hk'
    exact mem_values_iff.mpr ⟨k', hk'⟩

theorem mem_values_insert {t : Table κ ν} {k : κ} {u v : ν} (h : v ∈ values (t.insert k u)) :
    v = u ∨ v ∈ values t := by
  obtain ⟨k', hk'⟩ := mem_values_iff.mp h
  by_cases hsame : k' = k
  · subst hsame
    rw [AList.lookup_insert] at hk'
    exact .inl (Option.some.inj hk').symm
  · rw [AList.lookup_insert_ne hsame] at hk'
    exact .inr (mem_values_iff.mpr ⟨k', hk'⟩)

theorem keys_values {key : ν → κ} {t : Table κ ν} (h : Keyed key t) :
    (values t).map key = t.entries.keys := by
  simp only [values, List.map_map, List.keys]
  apply List.map_congr_left
  intro e he
  exact h e.1 e.2 (mem_entries_iff.mp he)

/-- Writing a keyed table out in any order and reading it back gives the table. -/
theorem lookup_collect_values {key : ν → κ} {t : Table κ ν} (h : Keyed key t) {l : List ν}
    (hperm : l.Perm (values t)) (k : κ) : (collect key l).lookup k = t.lookup k := by
  have hnodup : (l.map key).Nodup := by
    rw [(hperm.map key).nodup_iff, keys_values h]
    exact t.nodupKeys
  apply Option.ext
  intro v
  rw [collect, lookup_foldl_insert hnodup, hperm.mem_iff]
  simp only [AList.lookup_empty, reduceCtorEq, and_false, or_false]
  constructor
  · rintro ⟨hmem, rfl⟩
    obtain ⟨e, he, rfl⟩ := List.mem_map.mp hmem
    have hlook := mem_entries_iff.mp he
    rw [h e.1 e.2 hlook]
    exact hlook
  · intro hlook
    exact ⟨List.mem_map_of_mem (f := Sigma.snd) (mem_entries_iff.mpr hlook), h k v hlook⟩

/-! ### Total weight -/

/-- The summed weight of a table's entries. -/
def weight (t : Table κ ν) : Nat := rowsWeight w t.entries

theorem weight_insert (t : Table κ ν) (k : κ) (v : ν) :
    weight w (t.insert k v) = w v + weight w (t.erase k) := by
  rw [weight, weight, AList.entries_insert, rowsWeight_cons, kerase_entries]

/-- Removing an entry takes exactly its weight off the total. -/
theorem weight_erase {t : Table κ ν} {k : κ} {v : ν} (h : t.lookup k = some v) :
    weight w (t.erase k) + w v = weight w t := by
  have hmem : (⟨k, v⟩ : Row κ ν) ∈ t.entries := mem_entries_iff.mpr h
  have hkey : k ∈ t.entries.keys := List.mem_keys_of_mem hmem
  obtain ⟨b, l₁, l₂, hnot, hsplit, hrest⟩ := List.exists_of_kerase hkey
  have hb : b = v := by
    have hmemb : (⟨k, b⟩ : Row κ ν) ∈ t.entries := by rw [hsplit]; simp
    have hlook := mem_entries_iff.mp hmemb
    rw [h] at hlook
    exact (Option.some.inj hlook).symm
  subst hb
  simp only [weight, kerase_entries, hrest]
  rw [hsplit]
  simp only [rowsWeight_append, rowsWeight_cons]
  omega

/-- Removing a key takes off the weight found under it, nothing if absent. -/
theorem weight_erase_getD (t : Table κ ν) (k : κ) :
    weight w (t.erase k) + ((t.lookup k).map w).getD 0 = weight w t := by
  cases h : t.lookup k with
  | none => rw [erase_eq_self h]; simp
  | some v => simpa using weight_erase w h

theorem kerase_eq_filter {k : κ} {l : List (Row κ ν)} (h : l.NodupKeys) :
    l.kerase k = l.filter fun e => e.1 ≠ k := by
  induction l with
  | nil => rfl
  | cons e rest ih =>
    obtain ⟨hnot, hrest⟩ := List.nodupKeys_cons.mp h
    by_cases hk : k = e.1
    · have hall : rest.filter (fun e => e.1 ≠ k) = rest := by
        rw [List.filter_eq_self]
        intro x hx
        have hne : x.1 ≠ k := by
          intro heq
          apply hnot
          rw [← hk, ← heq]
          exact List.mem_keys_of_mem hx
        simpa using hne
      rw [List.kerase_cons_eq hk, List.filter_cons, hall]
      simp [hk]
    · rw [List.kerase_cons_ne hk, ih hrest, List.filter_cons]
      simp [Ne.symm hk]

/-- Removing an entry keeps every row under another key. -/
theorem entries_erase (t : Table κ ν) (k : κ) :
    (t.erase k).entries = t.entries.filter fun e => e.1 ≠ k :=
  kerase_eq_filter t.nodupKeys

/-- Removing a list of distinct entries takes exactly their weight off. -/
theorem weight_eraseAll {rows : List (Row κ ν)} (t : Table κ ν)
    (hnodup : (rows.map Sigma.fst).Nodup) (hrows : ∀ e ∈ rows, t.lookup e.1 = some e.2) :
    weight w (eraseAll (rows.map Sigma.fst) t) + rowsWeight w rows = weight w t := by
  induction rows generalizing t with
  | nil => simp [eraseAll]
  | cons e rest ih =>
    obtain ⟨hnot, hrest⟩ := List.nodup_cons.mp hnodup
    have hstep : eraseAll ((e :: rest).map Sigma.fst) t =
        eraseAll (rest.map Sigma.fst) (t.erase e.1) := rfl
    have hother : ∀ x ∈ rest, (t.erase e.1).lookup x.1 = some x.2 := by
      intro x hx
      have hne : x.1 ≠ e.1 := by
        intro heq
        exact hnot (heq ▸ List.mem_map_of_mem hx)
      rw [AList.lookup_erase_ne hne]
      exact hrows x (List.mem_cons_of_mem _ hx)
    have htail := ih (t.erase e.1) hrest hother
    have hhead := weight_erase w (hrows e List.mem_cons_self)
    rw [hstep, rowsWeight_cons]
    omega

/-! ### Greedy shedding -/

/-- Take entries from the front until their weight covers `demand`, or until
    none is left. -/
def shed (w : α → Nat) : Nat → List α → List α
  | 0, _ => []
  | _ + 1, [] => []
  | demand + 1, a :: as => a :: shed w (demand + 1 - w a) as

section Shed

variable (c : α → Nat)

@[simp] theorem shed_zero (l : List α) : shed c 0 l = [] := by
  cases l <;> rfl

@[simp] theorem shed_nil (demand : Nat) : shed c demand [] = [] := by
  cases demand <;> rfl

theorem shed_cons {demand : Nat} (h : 0 < demand) (a : α) (as : List α) :
    shed c demand (a :: as) = a :: shed c (demand - c a) as := by
  cases demand with
  | zero => omega
  | succ n => rfl

theorem shed_isPrefix (demand : Nat) (l : List α) : shed c demand l <+: l := by
  induction l generalizing demand with
  | nil => simp
  | cons a as ih =>
    cases demand with
    | zero => simp
    | succ n =>
      rw [shed_cons c (Nat.succ_pos n)]
      exact List.cons_prefix_cons.mpr ⟨rfl, ih _⟩

theorem shed_sum_le (demand : Nat) (l : List α) :
    ((shed c demand l).map c).sum ≤ (l.map c).sum := by
  obtain ⟨rest, hrest⟩ := shed_isPrefix c demand l
  conv_rhs => rw [← hrest]
  simp

/-- The demand is covered exactly when the whole list could cover it. -/
theorem shed_covers (demand : Nat) (l : List α) :
    demand ≤ ((shed c demand l).map c).sum ↔ demand ≤ (l.map c).sum := by
  induction l generalizing demand with
  | nil => simp
  | cons a as ih =>
    cases demand with
    | zero => simp
    | succ n =>
      rw [shed_cons c (Nat.succ_pos n)]
      simp only [List.map_cons, List.sum_cons]
      have hrest := ih (n.succ - c a)
      omega

/-- No shorter prefix covers the demand. -/
theorem shed_shortest (demand : Nat) (l : List α) {m : Nat} (h : m < (shed c demand l).length) :
    ((l.take m).map c).sum < demand := by
  induction l generalizing demand m with
  | nil => simp at h
  | cons a as ih =>
    cases demand with
    | zero => simp at h
    | succ n =>
      rw [shed_cons c (Nat.succ_pos n), List.length_cons] at h
      cases m with
      | zero => simp
      | succ m =>
        have hrest := ih (n.succ - c a) (Nat.lt_of_succ_lt_succ h)
        simp only [List.take_succ_cons, List.map_cons, List.sum_cons]
        omega

/-- Shedding from two lists one after the other is shedding from their
    concatenation. -/
theorem shed_append (demand : Nat) (l r : List α) :
    shed c demand (l ++ r) =
      shed c demand l ++ shed c (demand - ((shed c demand l).map c).sum) r := by
  induction l generalizing demand with
  | nil => simp
  | cons a as ih =>
    cases demand with
    | zero => simp
    | succ n =>
      rw [List.cons_append, shed_cons c (Nat.succ_pos n), shed_cons c (Nat.succ_pos n), ih,
        List.cons_append]
      simp only [List.map_cons, List.sum_cons, Nat.sub_sub]

end Shed

end AiDaemon.Ledger
