import Mathlib.Data.List.Induction
import Mathlib.Data.List.Nodup
import Mathlib.Data.List.ReduceOption
import Mathlib.Tactic.Common

/-!
# The last of each key

Of the items of a list that share a key only the last counts (`lastOf`).  `collapse`
keeps the ones that count, each in the place of the first one with its key.

What is then found under a key, by a search from the front, is what the list had last
(`find_collapse`), and collapsing once more changes nothing (`collapse_collapse`).
-/

namespace AiDaemon.LastOfEach

variable {α κ : Type} [DecidableEq κ]

/-! ### Keys in the order in which they come -/

theorem eraseDups_concat (keys : List κ) (k : κ) :
    (keys ++ [k]).eraseDups = if k ∈ keys then keys.eraseDups else keys.eraseDups ++ [k] := by
  rw [List.eraseDups_append]
  by_cases hmem : k ∈ keys
  · simp [hmem, List.removeAll]
  · simp [hmem, List.removeAll, List.eraseDups_cons]

theorem idxOf?_concat (keys : List κ) (k k' : κ) :
    (keys ++ [k]).idxOf? k' = (keys.idxOf? k').or (if k = k' then some keys.length else none) := by
  rw [List.idxOf?, List.findIdx?_append, List.findIdx?_singleton]
  by_cases hk : k = k'
  · simp [hk]
  · simp [hk]

/-- What is left of the keys is in the order in which they come first. -/
theorem pairwise_idxOf_eraseDups (keys : List κ) :
    keys.eraseDups.Pairwise fun a b => keys.idxOf a < keys.idxOf b := by
  induction keys using List.reverseRecOn with
  | nil => exact .nil
  | append_singleton keys k ih =>
    have hkept : keys.eraseDups.Pairwise
        fun a b => (keys ++ [k]).idxOf a < (keys ++ [k]).idxOf b := by
      refine ih.imp_of_mem fun ha hb hlt => ?_
      rwa [List.idxOf_append_of_mem (List.mem_eraseDups.1 ha),
        List.idxOf_append_of_mem (List.mem_eraseDups.1 hb)]
    rw [eraseDups_concat]
    by_cases hmem : k ∈ keys
    · rwa [if_pos hmem]
    · rw [if_neg hmem, List.pairwise_append]
      refine ⟨hkept, List.pairwise_singleton _ _, fun a ha b hb => ?_⟩
      obtain rfl := List.mem_singleton.1 hb
      have ha := List.mem_eraseDups.1 ha
      rw [List.idxOf_append_of_mem ha, List.idxOf_append_of_notMem hmem]
      exact Nat.lt_add_right _ (List.idxOf_lt_length_of_mem ha)

theorem nodup_eraseDups (keys : List κ) : keys.eraseDups.Nodup := by
  refine (pairwise_idxOf_eraseDups keys).imp fun hlt heq => ?_
  rw [heq] at hlt
  exact Nat.lt_irrefl _ hlt

variable (key : α → κ)

/-! ### The last item with a key -/

def lastOf (k : κ) (items : List α) : Option α := items.reverse.find? fun x => key x = k

theorem lastOf_concat (k : κ) (items : List α) (x : α) :
    lastOf key k (items ++ [x]) = if key x = k then some x else lastOf key k items := by
  rw [lastOf, List.reverse_append, List.reverse_singleton, List.singleton_append, List.find?_cons]
  by_cases hkey : key x = k
  · simp [hkey]
  · simp [hkey, lastOf]

variable {key}

theorem lastOf_eq_none {k : κ} {items : List α} :
    lastOf key k items = none ↔ k ∉ items.map key := by
  simp [lastOf]

theorem key_of_lastOf {k : κ} {items : List α} {x : α} (h : lastOf key k items = some x) :
    key x = k := by
  simpa using List.find?_some h

variable (key)

/-! ### The last items in the places of the first -/

/-- One slot for each key, with the last item that has it. -/
def slots (items : List α) : List (Option α) :=
  (items.map key).eraseDups.map fun k => lastOf key k items

def collapse (items : List α) : List α := (slots key items).reduceOption

@[simp] theorem length_slots (items : List α) :
    (slots key items).length = (items.map key).eraseDups.length :=
  List.length_map _

/-- One more item takes the slot of its key, or a new one behind the others. -/
theorem slots_concat (items : List α) (x : α) :
    slots key (items ++ [x]) =
      if key x ∈ items.map key then
        (slots key items).set ((items.map key).eraseDups.idxOf (key x)) (some x)
      else slots key items ++ [some x] := by
  have hlast : (fun k => lastOf key k (items ++ [x])) =
      Function.update (fun k => lastOf key k items) (key x) (some x) := by
    funext k
    rw [lastOf_concat, Function.update_apply]
    simp only [eq_comm]
  rw [slots, hlast, List.map_append, List.map_singleton, eraseDups_concat]
  have hupdate := (nodup_eraseDups (items.map key)).map_update
    (fun k => lastOf key k items) (key x) (some x)
  simp only [List.mem_eraseDups] at hupdate
  by_cases hmem : key x ∈ items.map key
  · rw [if_pos hmem, if_pos hmem, hupdate, if_pos hmem]
    rfl
  · rw [if_neg hmem, if_neg hmem, List.map_append, hupdate, if_neg hmem, List.map_singleton,
      Function.update_self]
    rfl

theorem collapse_concat_of_notMem {items : List α} {x : α} (h : key x ∉ items.map key) :
    collapse key (items ++ [x]) = collapse key items ++ [x] := by
  rw [collapse, slots_concat, if_neg h, List.reduceOption_append, List.reduceOption_singleton]
  rfl

/-- The keys of the slots are those of the items in them. -/
theorem map_key_slots (items : List α) {keys : List κ} (h : ∀ k ∈ keys, k ∈ items.map key) :
    (keys.map fun k => lastOf key k items).reduceOption.map key = keys := by
  induction keys with
  | nil => rfl
  | cons k keys ih =>
    obtain ⟨hk, hkeys⟩ := List.forall_mem_cons.1 h
    cases hlast : lastOf key k items with
    | none => exact absurd hk (lastOf_eq_none.1 hlast)
    | some x =>
      rw [List.map_cons, hlast, List.reduceOption_cons_of_some, List.map_cons, ih hkeys,
        key_of_lastOf hlast]

theorem map_key_collapse (items : List α) :
    (collapse key items).map key = (items.map key).eraseDups :=
  map_key_slots key items fun _ hk => List.mem_eraseDups.1 hk

theorem nodup_collapse (items : List α) : ((collapse key items).map key).Nodup := by
  rw [map_key_collapse]
  exact nodup_eraseDups _

theorem find_slots (k : κ) (items : List α) (keys : List κ) (h : k ∈ keys ∨ k ∉ items.map key) :
    (keys.map fun k => lastOf key k items).reduceOption.find? (fun x => key x = k) =
      lastOf key k items := by
  induction keys with
  | nil =>
    rcases h with hmem | hnone
    · cases hmem
    · exact (lastOf_eq_none.2 hnone).symm
  | cons k' keys ih =>
    by_cases hk : k' = k
    · subst hk
      cases hlast : lastOf key k' items with
      | none =>
        rw [List.map_cons, hlast, List.reduceOption_cons_of_none,
          ih (.inr (lastOf_eq_none.1 hlast)), hlast]
      | some x =>
        rw [List.map_cons, hlast, List.reduceOption_cons_of_some, List.find?_cons_of_pos]
        simpa using key_of_lastOf hlast
    · have hrest : k ∈ keys ∨ k ∉ items.map key :=
        h.imp_left fun hmem => (List.mem_cons.1 hmem).resolve_left (Ne.symm hk)
      cases hlast : lastOf key k' items with
      | none => rw [List.map_cons, hlast, List.reduceOption_cons_of_none, ih hrest]
      | some x =>
        rw [List.map_cons, hlast, List.reduceOption_cons_of_some, List.find?_cons_of_neg, ih hrest]
        simpa [key_of_lastOf hlast] using hk

/-- **A search from the front** finds what the list had last. -/
theorem find_collapse (k : κ) (items : List α) :
    (collapse key items).find? (fun x => key x = k) = lastOf key k items := by
  apply find_slots
  rw [List.mem_eraseDups]
  exact Classical.em _

theorem collapse_of_nodup {items : List α} (h : (items.map key).Nodup) :
    collapse key items = items := by
  induction items using List.reverseRecOn with
  | nil => rfl
  | append_singleton items x ih =>
    rw [List.map_append, List.map_singleton, List.nodup_append] at h
    obtain ⟨hitems, -, hdisjoint⟩ := h
    have hfresh : key x ∉ items.map key := fun hmem =>
      hdisjoint _ hmem _ (List.mem_singleton_self _) rfl
    rw [collapse_concat_of_notMem key hfresh, ih hitems]

theorem collapse_collapse (items : List α) :
    collapse key (collapse key items) = collapse key items :=
  collapse_of_nodup key (nodup_collapse key items)

/-- The keys of a list are in the order in which they come first in another. -/
def InOrder (items kept : List α) : Prop :=
  kept.Pairwise fun x y => (items.map key).idxOf (key x) < (items.map key).idxOf (key y)

/-- A list that keeps the last item of each key, in the order in which the keys came. -/
structure LastKept (items kept : List α) : Prop where
  distinct : (kept.map key).Nodup
  keys : ∀ k, k ∈ kept.map key ↔ k ∈ items.map key
  mem : ∀ x, x ∈ kept ↔ lastOf key (key x) items = some x
  inOrder : InOrder key items kept

/-- Among items with distinct keys a search finds the one that has the key. -/
theorem find_eq_some_iff {items : List α} (h : (items.map key).Nodup) {k : κ} {x : α} :
    items.find? (fun x => key x = k) = some x ↔ x ∈ items ∧ key x = k := by
  constructor
  · intro hfind
    exact ⟨List.mem_of_find?_eq_some hfind, by simpa using List.find?_some hfind⟩
  · rintro ⟨hmem, hkey⟩
    cases hfind : items.find? fun x => key x = k with
    | none => exact absurd (decide_eq_true hkey) (List.find?_eq_none.1 hfind x hmem)
    | some y =>
      have hy : key y = k := by simpa using List.find?_some hfind
      rw [List.inj_on_of_nodup_map h (List.mem_of_find?_eq_some hfind) hmem (hy.trans hkey.symm)]

theorem lastKept_collapse (items : List α) : LastKept key items (collapse key items) where
  distinct := nodup_collapse key items
  keys k := by rw [map_key_collapse, List.mem_eraseDups]
  mem x := by
    rw [← find_collapse, find_eq_some_iff key (nodup_collapse key items)]
    exact (and_iff_left rfl).symm
  inOrder := by
    have hkeys := pairwise_idxOf_eraseDups (items.map key)
    rwa [← map_key_collapse, List.pairwise_map] at hkeys

/-- What a search finds in a part of the list. -/
theorem find_filter {items : List α} (h : (items.map key).Nodup) (p : α → Bool) (k : κ) :
    (items.filter p).find? (fun x => key x = k) =
      (items.find? fun x => key x = k).filter p := by
  have hpart : ((items.filter p).map key).Nodup := h.sublist (List.filter_sublist.map key)
  ext x
  rw [find_eq_some_iff key hpart, Option.filter_eq_some_iff, find_eq_some_iff key h,
    List.mem_filter, and_right_comm]

end AiDaemon.LastOfEach
