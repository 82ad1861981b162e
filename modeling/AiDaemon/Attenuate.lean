import AiDaemon.Options
import AiDaemon.Policy
import AiDaemon.Transition
import Mathlib.Data.Fintype.EquivFin
import Mathlib.Order.WithBot

/-!
# Attenuation (`dbusapi.rs`: `attenuate`)

A session's limits are its identity's limits narrowed by the options it was
opened with.  `attenuate` goes through the options one at a time, so it is a
composition of seven steps here, each of which touches its own fields.

`Narrows` is what the function is for: less or the same on every field, a
preorder, so that narrowing once is enough to narrow any number of times.  Six
steps always narrow.  The seventh intersects the model lists and keeps a `*` the
caller asked for even where the identity holds none, and then it widens to every
model; `attenuate_narrows_iff` says that this is the only way.
-/

namespace AiDaemon.Policy

open Transition

/-! ### The source -/

def narrowRate (limits : Limits) (options : Options) : Limits :=
  match options.u64 "max_tokens_per_minute" with
  | some v =>
    if v.toNat < limits.tokensPerMinute then
      { limits with sessionRate := some v.toNat, tokensPerMinute := v.toNat }
    else limits
  | none => limits

def narrowSessions (limits : Limits) (options : Options) : Limits :=
  match options.u32 "max_sessions" with
  | some v => { limits with maxSessions := min limits.maxSessions v.toNat }
  | none => limits

/-- Zero is no ceiling, so asking for zero asks for nothing. -/
def narrowSpend (limits : Limits) (options : Options) : Limits :=
  match options.f64 "daily_spend" with
  | some v =>
    let asked := toMicros v
    if asked > 0 then
      { limits with
        dailySpendMicros :=
          if limits.dailySpendMicros = 0 then asked else min limits.dailySpendMicros asked }
    else limits
  | none => limits

def narrowTools (limits : Limits) (options : Options) : Limits :=
  if (options.bool "no_tools").getD false then { limits with noTools := true } else limits

def narrowModels (limits : Limits) (options : Options) : Limits :=
  match options.strings "allowed_models" with
  | some models =>
    { limits with
      allowedModels :=
        if limits.allowedModels.any (fun m => m = ['*']) then models
        else models.filter fun m => m = ['*'] || limits.allowedModels.any fun a => a = m }
  | none => limits

def isBlank (text : Text) : Bool := text.trim = []

def narrowPrelude (limits : Limits) (options : Options) : Limits :=
  match options.string "prelude" with
  | some text =>
    if isBlank text then limits
    else if isBlank limits.prelude then { limits with prelude := text }
    else { limits with prelude := limits.prelude ++ '\n' :: text }
  | none => limits

def narrowProvenance (limits : Limits) (options : Options) : Limits :=
  if (options.bool "mark_provenance").getD false then { limits with markProvenance := true }
  else limits

def attenuate (limits : Limits) (options : Options) : Limits :=
  let limits := narrowRate limits options
  let limits := narrowSessions limits options
  let limits := narrowSpend limits options
  let limits := narrowTools limits options
  let limits := narrowModels limits options
  let limits := narrowPrelude limits options
  narrowProvenance limits options

/-! ### Narrowing -/

/-- The spend ceiling, with zero read as none. -/
def spendCeiling (limits : Limits) : WithTop Nat :=
  if limits.dailySpendMicros = 0 then ⊤ else (limits.dailySpendMicros : Nat)

/-- `a` allows nothing that `l` does not. -/
structure Narrows (a l : Limits) : Prop where
  models : ∀ m, a.permitsModel m = true → l.permitsModel m = true
  rate : a.tokensPerMinute ≤ l.tokensPerMinute
  sessions : a.maxSessions ≤ l.maxSessions
  spend : spendCeiling a ≤ spendCeiling l
  prelude : isBlank l.prelude = false → l.prelude <+: a.prelude
  tools : l.noTools = true → a.noTools = true
  provenance : l.markProvenance = true → a.markProvenance = true
  context : a.maxContext = l.maxContext

theorem Narrows.refl (limits : Limits) : Narrows limits limits :=
  ⟨fun _ h => h, le_rfl, le_rfl, le_rfl, fun _ => List.prefix_rfl, fun h => h, fun h => h, rfl⟩

theorem isBlank_iff {text : Text} : isBlank text = true ↔ ∀ c ∈ text, Text.isWhite c = true := by
  rw [isBlank, decide_eq_true_eq]
  exact Text.trim_eq_nil

theorem isBlank_of_isPrefix {l r : Text} (h : l <+: r) (hr : isBlank r = true) :
    isBlank l = true := by
  rw [isBlank_iff] at hr ⊢
  intro c hc
  exact hr c (h.subset hc)

theorem Narrows.trans {a b c : Limits} (hab : Narrows a b) (hbc : Narrows b c) : Narrows a c := by
  refine ⟨fun m h => hbc.models m (hab.models m h), hab.rate.trans hbc.rate,
    hab.sessions.trans hbc.sessions, hab.spend.trans hbc.spend, ?_,
    fun h => hab.tools (hbc.tools h), fun h => hab.provenance (hbc.provenance h),
    hab.context.trans hbc.context⟩
  -- what is not blank stays a prefix of something not blank
  intro hblank
  have hprefix := hbc.prelude hblank
  apply hprefix.trans
  apply hab.prelude
  rw [Bool.eq_false_iff]
  intro hb
  rw [isBlank_of_isPrefix hprefix hb] at hblank
  cases hblank

/-! ### Each step -/

section Steps

variable (limits : Limits) (options : Options)

theorem narrowRate_narrows : Narrows (narrowRate limits options) limits := by
  unfold narrowRate
  cases options.u64 "max_tokens_per_minute" with
  | none => exact Narrows.refl limits
  | some v =>
    dsimp only
    split
    · rename_i hlt
      exact { Narrows.refl limits with rate := Nat.le_of_lt hlt }
    · exact Narrows.refl limits

theorem narrowSessions_narrows : Narrows (narrowSessions limits options) limits := by
  unfold narrowSessions
  cases options.u32 "max_sessions" with
  | none => exact Narrows.refl limits
  | some v => exact { Narrows.refl limits with sessions := min_le_left _ _ }

theorem narrowSpend_narrows : Narrows (narrowSpend limits options) limits := by
  unfold narrowSpend
  cases options.f64 "daily_spend" with
  | none => exact Narrows.refl limits
  | some v =>
    dsimp only
    split
    · rename_i hasked
      refine { Narrows.refl limits with spend := ?_ }
      by_cases hzero : limits.dailySpendMicros = 0
      · simp [spendCeiling, hzero]
      · have hmin : min limits.dailySpendMicros (toMicros v) ≠ 0 := by omega
        simp only [spendCeiling, hzero, if_false, hmin]
        exact WithTop.coe_le_coe.mpr (min_le_left _ _)
    · exact Narrows.refl limits

theorem narrowTools_narrows : Narrows (narrowTools limits options) limits := by
  unfold narrowTools
  split
  · exact { Narrows.refl limits with tools := fun _ => rfl }
  · exact Narrows.refl limits

theorem narrowPrelude_narrows : Narrows (narrowPrelude limits options) limits := by
  unfold narrowPrelude
  cases options.string "prelude" with
  | none => exact Narrows.refl limits
  | some text =>
    dsimp only
    split
    · exact Narrows.refl limits
    · split
      · rename_i hblank
        refine { Narrows.refl limits with prelude := ?_ }
        intro hnot
        rw [hblank] at hnot
        cases hnot
      · exact { Narrows.refl limits with prelude := fun _ => List.prefix_append _ _ }

theorem narrowProvenance_narrows : Narrows (narrowProvenance limits options) limits := by
  unfold narrowProvenance
  split
  · exact { Narrows.refl limits with provenance := fun _ => rfl }
  · exact Narrows.refl limits

end Steps

/-! ### The model list -/

/-- A `*` among the models asked for is one the identity holds. -/
def StarHeld (limits : Limits) (options : Options) : Prop :=
  ∀ models, options.strings "allowed_models" = some models → ['*'] ∈ models →
    ['*'] ∈ limits.allowedModels

theorem permitsModel_iff {limits : Limits} {m : Text} :
    limits.permitsModel m = true ↔ ['*'] ∈ limits.allowedModels ∨ m ∈ limits.allowedModels := by
  simp only [Limits.permitsModel, List.any_eq_true, decide_eq_true_eq]
  constructor
  · rintro ⟨a, ha, rfl | rfl⟩
    · exact Or.inl ha
    · exact Or.inr ha
  · rintro (h | h)
    · exact ⟨_, h, Or.inl rfl⟩
    · exact ⟨_, h, Or.inr rfl⟩

theorem mem_narrowModels {limits : Limits} {options : Options} {models : List Text}
    (hmodels : options.strings "allowed_models" = some models) (m : Text) :
    m ∈ (narrowModels limits options).allowedModels ↔
      m ∈ models ∧ (['*'] ∈ limits.allowedModels ∨ m = ['*'] ∨ m ∈ limits.allowedModels) := by
  have hany : ∀ x : Text, limits.allowedModels.any (fun a => a = x) = true ↔
      x ∈ limits.allowedModels := by
    intro x
    simp only [List.any_eq_true, decide_eq_true_eq, exists_eq_right]
  simp only [narrowModels, hmodels]
  by_cases hstar : ['*'] ∈ limits.allowedModels
  · rw [if_pos ((hany _).mpr hstar)]
    simp [hstar]
  · rw [if_neg (by rwa [hany])]
    simp only [List.mem_filter, Bool.or_eq_true, decide_eq_true_eq, hany, hstar, false_or]

theorem narrowModels_narrows {limits : Limits} {options : Options} (h : StarHeld limits options) :
    Narrows (narrowModels limits options) limits := by
  cases hmodels : options.strings "allowed_models" with
  | none =>
    simp only [narrowModels, hmodels]
    exact Narrows.refl limits
  | some models =>
    have hrest : Narrows { narrowModels limits options with
        allowedModels := limits.allowedModels } limits := by
      simp only [narrowModels, hmodels]
      exact Narrows.refl limits
    refine { hrest with models := ?_ }
    intro m hm
    rw [permitsModel_iff, mem_narrowModels hmodels, mem_narrowModels hmodels] at hm
    rw [permitsModel_iff]
    rcases hm with ⟨hasked, -⟩ | ⟨hasked, hheld | rfl | hheld⟩
    · exact Or.inl (h models hmodels hasked)
    · exact Or.inl hheld
    · exact Or.inl (h models hmodels hasked)
    · exact Or.inr hheld

/-- Nobody holds every model by listing them. -/
theorem exists_not_permitted {limits : Limits} (h : ['*'] ∉ limits.allowedModels) :
    ∃ m, limits.permitsModel m = false := by
  obtain ⟨m, hm⟩ := Infinite.exists_notMem_finset limits.allowedModels.toFinset
  refine ⟨m, ?_⟩
  rw [Bool.eq_false_iff, ne_eq, permitsModel_iff]
  rintro (hstar | hmem)
  · exact h hstar
  · exact hm (List.mem_toFinset.mpr hmem)

/-! ### All the steps -/

theorem allowedModels_before (limits : Limits) (options : Options) :
    (narrowTools (narrowSpend (narrowSessions (narrowRate limits options) options) options)
      options).allowedModels = limits.allowedModels := by
  have htools : ∀ l : Limits, (narrowTools l options).allowedModels = l.allowedModels := by
    intro l
    unfold narrowTools
    split <;> rfl
  have hspend : ∀ l : Limits, (narrowSpend l options).allowedModels = l.allowedModels := by
    intro l
    unfold narrowSpend
    split
    · dsimp only
      split <;> rfl
    · rfl
  have hsessions : ∀ l : Limits, (narrowSessions l options).allowedModels = l.allowedModels := by
    intro l
    unfold narrowSessions
    split <;> rfl
  have hrate : ∀ l : Limits, (narrowRate l options).allowedModels = l.allowedModels := by
    intro l
    unfold narrowRate
    split
    · split <;> rfl
    · rfl
  rw [htools, hspend, hsessions, hrate]

theorem allowedModels_after (limits : Limits) (options : Options) :
    (narrowProvenance (narrowPrelude limits options) options).allowedModels =
      limits.allowedModels := by
  have hprelude : (narrowPrelude limits options).allowedModels = limits.allowedModels := by
    unfold narrowPrelude
    split
    · split
      · rfl
      · split <;> rfl
    · rfl
  rw [← hprelude]
  unfold narrowProvenance
  split <;> rfl

theorem attenuate_allowedModels (limits : Limits) (options : Options) :
    (attenuate limits options).allowedModels = (narrowModels limits options).allowedModels := by
  have hcongr : ∀ l : Limits, l.allowedModels = limits.allowedModels →
      (narrowModels l options).allowedModels = (narrowModels limits options).allowedModels := by
    intro l hl
    unfold narrowModels
    split
    · simp only [hl]
    · exact hl
  unfold attenuate
  rw [allowedModels_after]
  exact hcongr _ (allowedModels_before limits options)

theorem attenuate_maxSessions (limits : Limits) (options : Options) :
    (attenuate limits options).maxSessions = (narrowSessions limits options).maxSessions := by
  have hafter : ∀ l : Limits, (narrowProvenance (narrowPrelude (narrowModels (narrowTools
      (narrowSpend l options) options) options) options) options).maxSessions = l.maxSessions := by
    intro l
    unfold narrowProvenance narrowPrelude narrowModels narrowTools narrowSpend
    grind
  have hrate : (narrowSessions (narrowRate limits options) options).maxSessions =
      (narrowSessions limits options).maxSessions := by
    unfold narrowSessions narrowRate
    grind
  unfold attenuate
  rw [hafter, hrate]

theorem attenuate_narrows {limits : Limits} {options : Options} (h : StarHeld limits options) :
    Narrows (attenuate limits options) limits := by
  have hbefore := allowedModels_before limits options
  have hheld : StarHeld (narrowTools (narrowSpend (narrowSessions (narrowRate limits options)
      options) options) options) options := by
    intro models hmodels hstar
    rw [hbefore]
    exact h models hmodels hstar
  unfold attenuate
  refine (narrowProvenance_narrows _ _).trans ?_
  refine (narrowPrelude_narrows _ _).trans ?_
  refine (narrowModels_narrows hheld).trans ?_
  refine (narrowTools_narrows _ _).trans ?_
  refine (narrowSpend_narrows _ _).trans ?_
  refine (narrowSessions_narrows _ _).trans ?_
  exact narrowRate_narrows _ _

theorem starHeld_of_narrows {limits : Limits} {options : Options}
    (h : Narrows (attenuate limits options) limits) : StarHeld limits options := by
  intro models hmodels hasked
  by_contra hnot
  -- the star survives the intersection, and permits what nobody listed
  obtain ⟨m, hm⟩ := exists_not_permitted hnot
  have hstar : ['*'] ∈ (attenuate limits options).allowedModels := by
    rw [attenuate_allowedModels, mem_narrowModels hmodels]
    exact ⟨hasked, Or.inr (Or.inl rfl)⟩
  have hpermits := h.models m (permitsModel_iff.mpr (Or.inl hstar))
  rw [hm] at hpermits
  cases hpermits

/-- **Attenuation narrows** exactly when it is not asked for a `*` the limits do
    not hold, and so does any sequence of such attenuations. -/
theorem attenuate_narrows_iff (limits : Limits) :
    (∀ options, Narrows (attenuate limits options) limits ↔ StarHeld limits options) ∧
      ∀ sequence : List Options,
        along (fun l o => some (attenuate l o)) StarHeld limits sequence →
          Narrows (sequence.foldl attenuate limits) limits := by
  refine ⟨fun options => ⟨starHeld_of_narrows, attenuate_narrows⟩, ?_⟩
  intro sequence hheld
  induction sequence generalizing limits with
  | nil => exact Narrows.refl limits
  | cons options rest ih =>
    obtain ⟨hfirst, hrest⟩ := hheld
    exact (ih (attenuate limits options) hrest).trans (attenuate_narrows hfirst)

def smallModelOnly : Limits := ⟨4096, 8, 1000, 0, [], false, none, false, ["small".toList]⟩

def everyModel : Options := (∅ : Options).insert "allowed_models".toList (.ofStrings [['*']])

/-- An identity that may use one model asks for all of them. -/
theorem attenuate_widens_on_star :
    ¬ ∀ (limits : Limits) (options : Options), Narrows (attenuate limits options) limits := by
  intro hall
  have hmodels := (hall smallModelOnly everyModel).models "large".toList
  revert hmodels
  decide

end AiDaemon.Policy
