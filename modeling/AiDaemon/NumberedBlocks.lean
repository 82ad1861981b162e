import Mathlib.Tactic.Common

/-!
# Numbered blocks

A stream of marks builds blocks one after another: each is started, filled by
one delta or more, and stopped, all under its number, and the numbers go up by
one.  `Blocks` says that of a finished stream from one number to the next,
`Streaming` of a stream that may stand inside a block.
-/

namespace AiDaemon.NumberedBlocks

/-- A mark for a block of kind `κ`, or for a piece `δ` of one. -/
inductive Mark (κ δ : Type) where
  | start (index : Nat) (kind : κ)
  | delta (index : Nat) (delta : δ)
  | stop (index : Nat)
deriving DecidableEq

variable {κ δ : Type} (fits : κ → δ → Prop)

/-- The marks of whole blocks, numbered from the first number up to the second. -/
inductive Blocks : Nat → List (Mark κ δ) → Nat → Prop where
  | nil (n : Nat) : Blocks n [] n
  | cons {n m : Nat} {kind : κ} {deltas : List δ} {rest : List (Mark κ δ)} :
      deltas ≠ [] → (∀ d ∈ deltas, fits kind d) → Blocks (n + 1) rest m →
      Blocks n (.start n kind :: (deltas.map (.delta n) ++ .stop n :: rest)) m

variable {fits}

theorem Blocks.append {l m n : Nat} {as bs : List (Mark κ δ)} (ha : Blocks fits l as m)
    (hb : Blocks fits m bs n) : Blocks fits l (as ++ bs) n := by
  induction ha with
  | nil => exact hb
  | cons hne hfits _ ih =>
    simp only [List.cons_append, List.append_assoc]
    exact .cons hne hfits (ih hb)

theorem Blocks.one (n : Nat) {kind : κ} {deltas : List δ} (hne : deltas ≠ [])
    (hfits : ∀ d ∈ deltas, fits kind d) :
    Blocks fits n (.start n kind :: (deltas.map (.delta n) ++ [.stop n])) (n + 1) :=
  .cons hne hfits (.nil (n + 1))

variable (fits)

/-- Whole blocks up to the number `n`, and then the start of that one, where a
    block of the kind is open. -/
inductive Streaming : List (Mark κ δ) → Nat → Option κ → Prop where
  | between {marks : List (Mark κ δ)} {n : Nat} : Blocks fits 0 marks n → Streaming marks n none
  | inside {marks : List (Mark κ δ)} {n : Nat} {kind : κ} {deltas : List δ} :
      Blocks fits 0 marks n → deltas ≠ [] → (∀ d ∈ deltas, fits kind d) →
      Streaming (marks ++ .start n kind :: deltas.map (.delta n)) n (some kind)

variable {fits} {marks : List (Mark κ δ)} {n : Nat} {kind : κ} {d : δ}

namespace Streaming

theorem new : Streaming fits ([] : List (Mark κ δ)) 0 none := .between (.nil 0)

theorem blocks (h : Streaming fits marks n none) : Blocks fits 0 marks n := by
  cases h with
  | between hblocks => exact hblocks

/-- A block is opened with its first delta. -/
theorem start (h : Streaming fits marks n none) (hfits : fits kind d) :
    Streaming fits (marks ++ [.start n kind, .delta n d]) n (some kind) := by
  have hone : ∀ d' ∈ [d], fits kind d' := by
    intro d' hd'
    rw [List.mem_singleton.mp hd']
    exact hfits
  exact .inside h.blocks (List.cons_ne_nil d []) hone

theorem delta (h : Streaming fits marks n (some kind)) (hfits : fits kind d) :
    Streaming fits (marks ++ [.delta n d]) n (some kind) := by
  cases h with
  | @inside marks _ _ deltas hblocks hne hall =>
    have hlast : ∀ d' ∈ deltas ++ [d], fits kind d' := by
      intro d' hd'
      rcases List.mem_append.mp hd' with hd' | hd'
      · exact hall d' hd'
      · rw [List.mem_singleton.mp hd']
        exact hfits
    have hopen := Streaming.inside hblocks (List.append_ne_nil_of_left_ne_nil hne [d]) hlast
    simpa using hopen

theorem stop (h : Streaming fits marks n (some kind)) :
    Streaming fits (marks ++ [.stop n]) (n + 1) none := by
  cases h with
  | inside hblocks hne hall =>
    have hwhole := hblocks.append (Blocks.one n hne hall)
    simpa using Streaming.between hwhole

/-- Whole blocks that go on where the stream stands. -/
theorem append {more : List (Mark κ δ)} {m : Nat} (h : Streaming fits marks n none)
    (hmore : Blocks fits n more m) : Streaming fits (marks ++ more) m none :=
  .between (h.blocks.append hmore)

end Streaming

end AiDaemon.NumberedBlocks
