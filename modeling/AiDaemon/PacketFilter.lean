import Mathlib.Data.List.Basic
import Mathlib.Data.UInt
import Mathlib.Tactic.Common

/-!
# Packet filters

The machine that runs a classic packet filter: one register, words of the data to
load into it, comparisons with a constant, and a value to return.  Jumps only go
forward, so a run is over by the end of the filter.

`Accepted` is what a kernel checks before it takes a filter: known instructions,
loads inside the data, jumps inside the filter, and a return at the end.  Such a
filter returns one of its own values whatever the data (`Accepted.returns`).
`exec_table` says what a table of comparisons computes.
-/

namespace AiDaemon.PacketFilter

/-! ### The machine -/

/-- One instruction, as it is laid out. -/
structure Insn where
  code : UInt16
  jt : UInt8
  jf : UInt8
  k : UInt32
deriving DecidableEq, Repr

inductive Op where
  | load
  | jumpEq
  | ret
deriving DecidableEq, Repr

/-- The instructions a filter is made of here. -/
def opOf (code : UInt16) : Option Op :=
  if code = 0x20 then some .load
  else if code = 0x15 then some .jumpEq
  else if code = 0x06 then some .ret
  else none

/-- Runs a filter from its `n`-th instruction on, with `a` in the register. -/
def exec (load : UInt32 → Option UInt32) : List Insn → Nat → UInt32 → Option UInt32
  | [], _, _ => none
  | _ :: rest, n + 1, a => exec load rest n a
  | i :: rest, 0, a =>
    match opOf i.code with
    | some .load => (load i.k).bind fun word => exec load rest 0 word
    | some .jumpEq => exec load rest (if a = i.k then i.jt.toNat else i.jf.toNat) a
    | some .ret => some i.k
    | none => none

variable {load : UInt32 → Option UInt32} {i : Insn} {rest : List Insn} {a : UInt32}

theorem exec_load (h : opOf i.code = some .load) :
    exec load (i :: rest) 0 a = (load i.k).bind fun word => exec load rest 0 word := by
  simp only [exec, h]

theorem exec_jumpEq (h : opOf i.code = some .jumpEq) :
    exec load (i :: rest) 0 a =
      exec load rest (if a = i.k then i.jt.toNat else i.jf.toNat) a := by
  simp only [exec, h]

theorem exec_ret (h : opOf i.code = some .ret) : exec load (i :: rest) 0 a = some i.k := by
  simp only [exec, h]

/-! ### Filters that are accepted -/

/-- An instruction that may stand in front of `rest`, for data of `size` bytes. -/
def Legal (size : Nat) (i : Insn) (rest : List Insn) : Prop :=
  match opOf i.code with
  | some .load => i.k.toNat % 4 = 0 ∧ i.k.toNat + 4 ≤ size
  | some .jumpEq => i.jt.toNat < rest.length ∧ i.jf.toNat < rest.length
  | some .ret => True
  | none => False

structure Accepted (size : Nat) (filter : List Insn) : Prop where
  short : filter.length ≤ 4096
  legal : ∀ i rest, i :: rest <:+ filter → Legal size i rest
  ends : ∃ i, filter.getLast? = some i ∧ opOf i.code = some .ret

/-- Every aligned word of the data can be loaded. -/
def Loads (size : Nat) (load : UInt32 → Option UInt32) : Prop :=
  ∀ k : UInt32, k.toNat % 4 = 0 → k.toNat + 4 ≤ size → ∃ word, load k = some word

/-- A run that starts inside an accepted filter ends at one of its returns. -/
theorem Accepted.returns_from {size : Nat} {filter : List Insn} (h : Accepted size filter)
    (hloads : Loads size load) {tail : List Insn} (htail : tail <:+ filter) {n : Nat}
    (hn : n < tail.length) (a : UInt32) :
    ∃ i ∈ tail, opOf i.code = some .ret ∧ exec load tail n a = some i.k := by
  induction tail generalizing n a with
  | nil => exact absurd hn (Nat.not_lt_zero n)
  | cons i rest ih =>
    have hrest : rest <:+ filter := (List.suffix_cons i rest).trans htail
    have hlast : ∃ last, (i :: rest).getLast? = some last ∧ opOf last.code = some .ret := by
      obtain ⟨last, hgetLast, hret⟩ := h.ends
      obtain ⟨before, rfl⟩ := htail
      rw [List.getLast?_append_of_ne_nil _ (List.cons_ne_nil i rest)] at hgetLast
      exact ⟨last, hgetLast, hret⟩
    -- what the run does once it is behind this instruction
    have hgo : ∀ m a, m < rest.length →
        ∃ j ∈ i :: rest, opOf j.code = some .ret ∧ exec load rest m a = some j.k := by
      intro m a hm
      obtain ⟨j, hmem, hj⟩ := ih hrest hm a
      exact ⟨j, List.mem_cons_of_mem i hmem, hj⟩
    cases n with
    | succ n => exact hgo n a (Nat.lt_of_succ_lt_succ hn)
    | zero =>
      have hlegal := h.legal i rest htail
      unfold Legal at hlegal
      split at hlegal
      · rename_i hop
        obtain ⟨word, hword⟩ := hloads i.k hlegal.1 hlegal.2
        rw [exec_load hop, hword, Option.bind_some]
        apply hgo
        rw [List.length_pos_iff]
        rintro rfl
        obtain ⟨last, hgetLast, hret⟩ := hlast
        rw [List.getLast?_singleton, Option.some.injEq] at hgetLast
        rw [hgetLast, hret] at hop
        cases hop
      · rename_i hop
        rw [exec_jumpEq hop]
        apply hgo
        split
        · exact hlegal.1
        · exact hlegal.2
      · rename_i hop
        exact ⟨i, List.mem_cons_self, hop, exec_ret hop⟩
      · exact absurd hlegal id

/-- An accepted filter returns one of its own values. -/
theorem Accepted.returns {size : Nat} {filter : List Insn} (h : Accepted size filter)
    (hloads : Loads size load) (a : UInt32) :
    ∃ i ∈ filter, opOf i.code = some .ret ∧ exec load filter 0 a = some i.k := by
  refine h.returns_from hloads (List.suffix_refl filter) ?_ a
  obtain ⟨i, hlast, -⟩ := h.ends
  exact List.length_pos_of_mem (List.mem_of_getLast? hlast)

/-! ### Tables -/

/-- Returns `value` where the register holds one of `keys`. -/
def table (value : UInt32) (keys : List UInt32) : List Insn :=
  keys.flatMap fun key => [⟨0x15, 0, 1, key⟩, ⟨0x06, 0, 0, value⟩]

theorem length_table (value : UInt32) (keys : List UInt32) :
    (table value keys).length = 2 * keys.length := by
  induction keys with
  | nil => rfl
  | cons key keys ih =>
    rw [table, List.flatMap_cons, List.length_append, ← table, ih, List.length_cons]
    simp only [List.length_cons, List.length_nil]
    omega

/-- A key that is found is answered; with any other the run is behind the table. -/
theorem exec_table (value : UInt32) (keys : List UInt32) :
    exec load (table value keys ++ rest) 0 a =
      if a ∈ keys then some value else exec load rest 0 a := by
  induction keys with
  | nil => rfl
  | cons key keys ih =>
    have hcons : table value (key :: keys) ++ rest =
        ⟨0x15, 0, 1, key⟩ :: ⟨0x06, 0, 0, value⟩ :: (table value keys ++ rest) := rfl
    rw [hcons, exec_jumpEq rfl]
    by_cases hkey : a = key
    · rw [if_pos hkey, if_pos (hkey ▸ List.mem_cons_self)]
      exact exec_ret rfl
    · rw [if_neg hkey]
      show exec load (table value keys ++ rest) 0 a = _
      rw [ih]
      simp only [List.mem_cons, hkey, false_or]

/-- A table in front of instructions that are in order is in order. -/
theorem legal_table {size : Nat} {value : UInt32} {keys : List UInt32} (hrest : 0 < rest.length)
    (hlegal : ∀ j tail, j :: tail <:+ rest → Legal size j tail) :
    ∀ j tail, j :: tail <:+ table value keys ++ rest → Legal size j tail := by
  induction keys with
  | nil => exact hlegal
  | cons key keys ih =>
    intro j tail hsuffix
    have hcons : table value (key :: keys) ++ rest =
        ⟨0x15, 0, 1, key⟩ :: ⟨0x06, 0, 0, value⟩ :: (table value keys ++ rest) := rfl
    rw [hcons, List.suffix_cons_iff] at hsuffix
    rcases hsuffix with hhead | hsuffix
    · obtain ⟨rfl, rfl⟩ := List.cons.inj hhead
      show 0 < _ ∧ 1 < _
      rw [List.length_cons, List.length_append]
      omega
    · rw [List.suffix_cons_iff] at hsuffix
      rcases hsuffix with hhead | hsuffix
      · obtain ⟨rfl, rfl⟩ := List.cons.inj hhead
        exact trivial
      · exact ih j tail hsuffix

end AiDaemon.PacketFilter
