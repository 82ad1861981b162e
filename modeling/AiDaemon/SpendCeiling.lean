import AiDaemon.Attenuate
import AiDaemon.MeteredGate
import AiDaemon.Spend
import Mathlib.Algebra.Order.BigOperators.Group.List
import Mathlib.Algebra.Order.Floor.Semiring

/-!
# The spend ceiling (`policy.rs`: `spend_permits`, `spent_by`)

A request passes the ceiling before it runs and is charged when it is over, with
any number of others between its two ends.  Over the rationals a price rounds
each of its two parts up, so that a model that costs nothing for one token of
each costs nothing at all, and no split of a request makes it cheaper.

The ledger of an identity is a metered gate (`spendStep_gate`): it forgets what
is a day old, lets a request in when what is left adds up to less than the
ceiling, and adds its price afterwards, in 64 bits.  So the total of the window
stays below the ceiling and the prices of as many requests as the identity has
running at once (`spend_ceiling_holds`).
-/

namespace AiDaemon.Spend

open Ledger MeteredGate Policy Transition

/-! ### Rational prices -/

/-- Pricing without rounding. -/
def exact : F64 ℚ where
  zero := 0
  isFinite _ := true
  le a b := decide (a ≤ b)
  mul a b := a * b
  ofU64 n := n.toNat
  ceil q := (⌈q⌉ : ℤ)
  max a b := max a b
  toU64 q := .ofNat (min ⌊q⌋₊ (2 ^ 64 - 1))

/-- What `u64` can hold of a number. -/
def saturated (n : Nat) : Nat := min n (2 ^ 64 - 1)

theorem toNat_micros (perMtok : ℚ) (tokens : UInt64) :
    (micros exact perMtok tokens).toNat = saturated ⌈perMtok * tokens.toNat⌉₊ := by
  by_cases hfree : perMtok ≤ 0
  · have hzero : ⌈perMtok * tokens.toNat⌉₊ = 0 := by
      rw [Nat.ceil_eq_zero]
      exact mul_nonpos_of_nonpos_of_nonneg hfree (Nat.cast_nonneg _)
    simp [micros, exact, hfree, hzero, saturated]
  · have hpos : 0 ≤ perMtok * tokens.toNat :=
      mul_nonneg (le_of_lt (not_le.mp hfree)) (Nat.cast_nonneg _)
    have hceil : (0 : ℚ) ≤ (⌈perMtok * tokens.toNat⌉ : ℤ) := by
      exact_mod_cast Int.ceil_nonneg hpos
    have hfloor : ⌊((⌈perMtok * tokens.toNat⌉ : ℤ) : ℚ)⌋₊ = ⌈perMtok * tokens.toNat⌉₊ := by
      rw [← natCast_ceil_eq_intCast_ceil hpos, Nat.floor_natCast]
    simp [micros, exact, hfree, max_eq_left hceil, hfloor, saturated]

theorem ceil_mul_le_ceil_mul (perMtok : ℚ) {m n : Nat} (h : m ≤ n) :
    ⌈perMtok * m⌉₊ ≤ ⌈perMtok * n⌉₊ := by
  by_cases hfree : perMtok ≤ 0
  · have hzero : ⌈perMtok * m⌉₊ = 0 := by
      rw [Nat.ceil_eq_zero]
      exact mul_nonpos_of_nonpos_of_nonneg hfree (Nat.cast_nonneg _)
    rw [hzero]
    exact Nat.zero_le _
  · apply Nat.ceil_mono
    exact mul_le_mul_of_nonneg_left (Nat.cast_le.mpr h) (le_of_lt (not_le.mp hfree))

/-- The price of that many tokens, before it has to fit a `u64`. -/
def fullPrice (prices : List (ModelPrice ℚ)) (model : Text) (promptTokens completionTokens : Nat) :
    Nat :=
  match priceFor prices model with
  | none => 0
  | some price => ⌈price.inputPerMtok * promptTokens⌉₊ + ⌈price.outputPerMtok * completionTokens⌉₊

section Prices

variable (prices : List (ModelPrice ℚ)) (model : Text)

theorem toNat_priceOf (promptTokens completionTokens : UInt64) :
    (priceOf exact prices model promptTokens completionTokens).toNat =
      saturated (fullPrice prices model promptTokens.toNat completionTokens.toNat) := by
  unfold priceOf fullPrice
  cases priceFor prices model with
  | none => rfl
  | some price =>
    simp only [saturatingAdd, toNat_micros, saturated, UInt64.toNat_ofNat']
    omega

theorem fullPrice_mono {p c p' c' : Nat} (hp : p ≤ p') (hc : c ≤ c') :
    fullPrice prices model p c ≤ fullPrice prices model p' c' := by
  unfold fullPrice
  cases priceFor prices model with
  | none => exact le_rfl
  | some price =>
    exact Nat.add_le_add (ceil_mul_le_ceil_mul price.inputPerMtok hp)
      (ceil_mul_le_ceil_mul price.outputPerMtok hc)

theorem fullPrice_add (p c p' c' : Nat) :
    fullPrice prices model (p + p') (c + c') ≤
      fullPrice prices model p c + fullPrice prices model p' c' := by
  unfold fullPrice
  cases priceFor prices model with
  | none => exact le_rfl
  | some price =>
    have hinput := Nat.ceil_add_le (price.inputPerMtok * p) (price.inputPerMtok * p')
    have houtput := Nat.ceil_add_le (price.outputPerMtok * c) (price.outputPerMtok * c')
    simp only [Nat.cast_add, mul_add]
    omega

variable {prices model}

/-- What is free for one token of each is free for any number. -/
theorem fullPrice_eq_zero (h : fullPrice prices model 1 1 = 0) (p c : Nat) :
    fullPrice prices model p c = 0 := by
  unfold fullPrice at h ⊢
  cases hprice : priceFor prices model with
  | none => rfl
  | some price =>
    simp only [hprice, Nat.cast_one, mul_one, Nat.add_eq_zero_iff, Nat.ceil_eq_zero] at h
    simp only [Nat.add_eq_zero_iff, Nat.ceil_eq_zero]
    exact ⟨mul_nonpos_of_nonpos_of_nonneg h.1 (Nat.cast_nonneg _),
      mul_nonpos_of_nonpos_of_nonneg h.2 (Nat.cast_nonneg _)⟩

theorem saturated_eq_zero {n : Nat} : saturated n = 0 ↔ n = 0 := by
  unfold saturated
  omega

theorem priceOf_eq_zero (h : priceOf exact prices model 1 1 = 0)
    (promptTokens completionTokens : UInt64) :
    priceOf exact prices model promptTokens completionTokens = 0 := by
  have hone : fullPrice prices model 1 1 = 0 := by
    have hzero := toNat_priceOf prices model 1 1
    rw [h] at hzero
    exact saturated_eq_zero.mp hzero.symm
  apply UInt64.toNat_inj.mp
  rw [toNat_priceOf, fullPrice_eq_zero hone]
  rfl

theorem priceOf_mono {p c p' c' : UInt64} (hp : p ≤ p') (hc : c ≤ c') :
    priceOf exact prices model p c ≤ priceOf exact prices model p' c' := by
  have hfull := fullPrice_mono prices model (UInt64.le_iff_toNat_le.mp hp)
    (UInt64.le_iff_toNat_le.mp hc)
  rw [UInt64.le_iff_toNat_le, toNat_priceOf, toNat_priceOf]
  unfold saturated
  omega

/-- The tokens of the parts of a request, added up. -/
def tokensOf (parts : List (UInt64 × UInt64)) : Nat × Nat :=
  ((parts.map fun part => part.1.toNat).sum, (parts.map fun part => part.2.toNat).sum)

variable (prices model) in
theorem saturated_fullPrice_le (parts : List (UInt64 × UInt64)) :
    saturated (fullPrice prices model (tokensOf parts).1 (tokensOf parts).2) ≤
      (parts.map fun part => (priceOf exact prices model part.1 part.2).toNat).sum := by
  induction parts with
  | nil =>
    have hnone : fullPrice prices model 0 0 = 0 := by
      unfold fullPrice
      cases priceFor prices model with
      | none => rfl
      | some price => simp
    simp [tokensOf, hnone, saturated]
  | cons part parts ih =>
    have hsplit := fullPrice_add prices model part.1.toNat part.2.toNat
      (tokensOf parts).1 (tokensOf parts).2
    simp only [List.map_cons, List.sum_cons, toNat_priceOf, tokensOf] at hsplit ih ⊢
    unfold saturated at ih ⊢
    omega

/-- **No split is cheaper.** -/
theorem priceOf_le_parts {p c : UInt64} {parts : List (UInt64 × UInt64)}
    (h : tokensOf parts = (p.toNat, c.toNat)) :
    (priceOf exact prices model p c).toNat ≤
      (parts.map fun part => (priceOf exact prices model part.1 part.2).toNat).sum := by
  have hparts := saturated_fullPrice_le prices model parts
  rw [h] at hparts
  rwa [toNat_priceOf]

end Prices

/-! ### The ledger of one identity -/

/-- `spent_by`. What is too old is dropped from the ledger on the way. -/
def spentBy (spend : Entries) (key : Text) (now : ℚ) : Entries × UInt64 :=
  match spend.lookup key with
  | none => (spend, 0)
  | some entry =>
    let entry := retained now entry
    (spend.insert key entry, (entry.map Prod.snd).sum)

theorem toNat_sum (l : List UInt64) : l.sum.toNat = (l.map UInt64.toNat).sum % 2 ^ 64 := by
  induction l with
  | nil => rfl
  | cons n l ih =>
    rw [List.sum_cons, UInt64.toNat_add, ih, List.map_cons, List.sum_cons, Nat.add_mod_mod]

/-- The register shows what has been spent, as far as it goes. -/
theorem toNat_spentBy (spend : Entries) (key : Text) (now : ℚ) :
    (spentBy spend key now).2.toNat = spentAt spend key now % 2 ^ 64 := by
  unfold spentBy spentAt
  cases spend.lookup key with
  | none => rfl
  | some entry => simp [toNat_sum, Function.comp_def]

/-- What is kept later was kept before. -/
theorem retained_of_le {now later : ℚ} (h : now ≤ later) (entry : List (ℚ × UInt64)) :
    retained later (retained now entry) = retained later entry := by
  unfold retained
  rw [List.filter_filter]
  apply List.filter_congr
  intro e _
  have hage : max 0 (now - e.1) ≤ max 0 (later - e.1) :=
    max_le_max le_rfl (sub_le_sub_right h e.1)
  simp only [Bool.and_eq_left_iff_imp, decide_eq_true_eq]
  intro hlater
  exact lt_of_le_of_lt hage hlater

theorem spentAt_anti (spend : Entries) (key : Text) {now later : ℚ} (h : now ≤ later) :
    spentAt spend key later ≤ spentAt spend key now := by
  unfold spentAt
  rw [← retained_of_le h]
  exact (List.filter_sublist.map _).sum_le_sum (fun _ _ => Nat.zero_le _)

theorem spentBy_spentAt (spend : Entries) (key key' : Text) {now later : ℚ} (h : now ≤ later) :
    spentAt (spentBy spend key now).1 key' later = spentAt spend key' later := by
  unfold spentBy
  cases hlookup : spend.lookup key with
  | none => rfl
  | some entry =>
    by_cases hkey : key' = key
    · subst hkey
      simp [spentAt, hlookup, retained_of_le h]
    · simp [spentAt, AList.lookup_insert_ne hkey]

/-! ### Requests -/

def spentText (identity : Identity) (spent ceiling : Text) : Text :=
  identity.key ++ " has spent ".toList ++ spent ++ " of its ".toList ++ ceiling ++
    (" daily allowance; the window is a rolling 24 hours, so this clears as the oldest " ++
      "requests age out").toList

section Requests

variable (render : Nat → Text) (prices : List (ModelPrice ℚ)) (limitsOf : Text → Limits)

/-- `spend_permits`. `render` is `render_micros`. -/
def spendPermits (spend : Entries) (account : Account) (now : ℚ) : Entries × Except Text Unit :=
  if account.limits.dailySpendMicros = 0 then (spend, .ok ())
  else if priceOf exact prices account.model 1 1 = 0 then (spend, .ok ())
  else
    let (spend, spent) := spentBy spend account.identity.key now
    if spent.toNat ≥ account.limits.dailySpendMicros then
      (spend, .error (spentText account.identity (render spent.toNat)
        (render account.limits.dailySpendMicros)))
    else (spend, .ok ())

/-- The meter, the time of its last use, who is between passing the ceiling and
    being charged, and what has been charged. -/
structure SpendState where
  meter : Meter
  clock : ℚ
  running : List Account
  charged : List (Account × UInt64)

def SpendState.new (clock : ℚ) : SpendState := ⟨⟨∅, ∅⟩, clock, [], []⟩

inductive SpendStep where
  | start (identity : Identity) (options : Options) (model : Text) (now : ℚ)
  | finish (index : Nat) (now : ℚ) (promptTokens completionTokens : UInt64)
  | look (key : Text) (now : ℚ)

/-- A session's limits are those of its identity, as its options narrow them;
    `limitsOf` gives those of a key. -/
def spendStep (st : SpendState) : SpendStep → Option SpendState
  | .start identity options model now =>
    if st.clock ≤ now then
      let account : Account := ⟨identity, attenuate (limitsOf identity.key) options, model⟩
      match spendPermits render prices st.meter.spend account now with
      | (spend, .ok ()) => some { st with
          meter := { st.meter with spend }, clock := now, running := st.running ++ [account] }
      | (spend, .error _) => some { st with meter := { st.meter with spend }, clock := now }
    else none
  | .finish index now promptTokens completionTokens =>
    if st.clock ≤ now then
      (st.running[index]?).map fun account =>
        ⟨chargeFor exact prices account st.meter now promptTokens completionTokens, now,
          st.running.eraseIdx index,
          st.charged ++
            [(account, priceOf exact prices account.model promptTokens completionTokens)]⟩
    else none
  | .look key now =>
    if st.clock ≤ now then
      some { st with
        meter := { st.meter with spend := (spentBy st.meter.spend key now).1 }, clock := now }
    else none

/-- How many requests of the identity are running. -/
def inFlight (key : Text) (st : SpendState) : Nat :=
  st.running.countP fun account => account.identity.key = key

/-- What requests of the identity have cost. -/
def costsOf (key : Text) (st : SpendState) : List Nat :=
  (st.charged.filter fun c => c.1.identity.key = key).map fun c => c.2.toNat

/-! ### The gate of one identity -/

/-- A request of the identity for a model that costs something. -/
def billed (key : Text) (account : Account) : Bool :=
  account.identity.key = key && priceOf exact prices account.model 1 1 ≠ 0

def gateOf (key : Text) (st : SpendState) : Gate where
  total := spentAt st.meter.spend key st.clock
  admitted := st.running.countP (billed prices key)
  costs := (st.charged.filter fun c => billed prices key c.1).map fun c => c.2.toNat

variable {prices limitsOf} {key : Text} {st st' : SpendState}

theorem billed_key {account : Account} (h : billed prices key account = true) :
    account.identity.key = key ∧ priceOf exact prices account.model 1 1 ≠ 0 := by
  simpa [billed] using h

/-- Who is not billed changes nothing that the gate counts. -/
theorem price_of_not_billed {account : Account} (h : billed prices key account = false)
    (promptTokens completionTokens : UInt64) :
    (if key = account.identity.key then
      (priceOf exact prices account.model promptTokens completionTokens).toNat else 0) = 0 := by
  split
  · rename_i hkey
    have hfree : priceOf exact prices account.model 1 1 = 0 := by
      simpa [billed, hkey] using h
    rw [priceOf_eq_zero hfree]
    rfl
  · rfl

theorem attenuate_dailySpendMicros (limits : Limits) (options : Options) :
    (attenuate limits options).dailySpendMicros =
      (narrowSpend limits options).dailySpendMicros := by
  have hafter : ∀ l : Limits, (narrowProvenance (narrowPrelude (narrowModels (narrowTools l
      options) options) options) options).dailySpendMicros = l.dailySpendMicros := by
    intro l
    unfold narrowProvenance narrowPrelude narrowModels narrowTools
    grind
  have hbefore : (narrowSpend (narrowSessions (narrowRate limits options) options)
      options).dailySpendMicros = (narrowSpend limits options).dailySpendMicros := by
    unfold narrowSpend narrowSessions narrowRate
    grind
  unfold attenuate
  rw [hafter, hbefore]

/-- A session has a ceiling where its identity has one, and no higher one. -/
theorem attenuate_ceiling {limits : Limits} (h : 0 < limits.dailySpendMicros)
    (options : Options) :
    0 < (attenuate limits options).dailySpendMicros ∧
      (attenuate limits options).dailySpendMicros ≤ limits.dailySpendMicros := by
  rw [attenuate_dailySpendMicros]
  unfold narrowSpend
  cases options.f64 "daily_spend" with
  | none => exact ⟨h, le_rfl⟩
  | some v =>
    dsimp only
    split
    · dsimp only
      rw [if_neg h.ne']
      omega
    · exact ⟨h, le_rfl⟩

/-- Asking drops only what is too old. -/
theorem spendPermits_spentAt (spend : Entries) (account : Account) {now later : ℚ}
    (h : now ≤ later) :
    spentAt (spendPermits render prices spend account now).1 key later =
      spentAt spend key later := by
  unfold spendPermits
  split
  · rfl
  split
  · rfl
  dsimp only
  split
  · exact spentBy_spentAt spend _ key h
  · exact spentBy_spentAt spend _ key h

/-- A billed request that passes has found the register below its ceiling. -/
theorem spendPermits_below {spend : Entries} {account : Account} {now : ℚ}
    (hceiling : 0 < account.limits.dailySpendMicros)
    (hbilled : billed prices key account = true)
    (h : (spendPermits render prices spend account now).2 = .ok ()) :
    spentAt spend key now % 2 ^ 64 < account.limits.dailySpendMicros := by
  obtain ⟨hkey, hprice⟩ := billed_key hbilled
  rw [spendPermits, if_neg hceiling.ne', if_neg hprice] at h
  dsimp only at h
  split at h
  · cases h
  · rename_i hbelow
    rw [toNat_spentBy, hkey] at hbelow
    exact not_le.mp hbelow

theorem inFlight_ge (key : Text) (running : List Account) :
    running.countP (billed prices key) ≤
      running.countP fun account => account.identity.key = key := by
  apply List.countP_mono_left
  intro account _ hbilled
  exact decide_eq_true (billed_key hbilled).1

/-- The gate forgets as the clock goes on. -/
theorem gateOf_decay {modulus ceiling capacity : Nat} {now : ℚ} (h : st.clock ≤ now)
    {spend : Entries} (hspend : spentAt spend key now = spentAt st.meter.spend key now) :
    Relation.ReflTransGen (Gate.Step modulus ceiling capacity) (gateOf prices key st)
      (gateOf prices key { st with meter := { st.meter with spend }, clock := now }) := by
  apply Relation.ReflTransGen.single
  have hless : spentAt spend key now ≤ (gateOf prices key st).total := by
    rw [hspend]
    exact spentAt_anti _ key h
  exact Gate.Step.decay hless

/-- **What a step does to the gate**: it forgets, and then it lets one request in
    or settles one. -/
theorem spendStep_gate {capacity : Nat} (hceiling : 0 < (limitsOf key).dailySpendMicros)
    {a : SpendStep} (hstep : spendStep render prices limitsOf st a = some st')
    (hroom : inFlight key st' ≤ capacity) :
    Relation.ReflTransGen (Gate.Step (2 ^ 64) (limitsOf key).dailySpendMicros capacity)
      (gateOf prices key st) (gateOf prices key st') := by
  cases a with
  | start identity options model now =>
    simp only [spendStep] at hstep
    split at hstep
    case isFalse => cases hstep
    rename_i hclock
    have hspend : spentAt (spendPermits render prices st.meter.spend
        ⟨identity, attenuate (limitsOf identity.key) options, model⟩ now).1 key now =
          spentAt st.meter.spend key now := by
      exact spendPermits_spentAt render _ _ (le_refl now)
    split at hstep
    · rename_i spend hpermits
      rw [hpermits] at hspend
      cases hstep
      refine (gateOf_decay hclock hspend).trans ?_
      cases hbilled : billed prices key
          ⟨identity, attenuate (limitsOf identity.key) options, model⟩ with
      | false =>
        simp only [gateOf, List.countP_append, List.countP_singleton, hbilled]
        exact Relation.ReflTransGen.refl
      | true =>
        obtain ⟨rfl, -⟩ := billed_key hbilled
        obtain ⟨hpos, hle⟩ := attenuate_ceiling hceiling options
        have hbelow := spendPermits_below render hpos hbilled (congrArg Prod.snd hpermits)
        have hcount : List.countP (billed prices identity.key) (st.running ++
            [⟨identity, attenuate (limitsOf identity.key) options, model⟩]) ≤ _ :=
          inFlight_ge _ _
        rw [List.countP_append, List.countP_singleton, hbilled, if_pos rfl] at hcount
        apply Relation.ReflTransGen.single
        simp only [gateOf, List.countP_append, List.countP_singleton, hbilled, if_true]
        refine Gate.Step.enter ?_ (Nat.lt_of_lt_of_le hcount hroom)
        dsimp only at hspend ⊢
        rw [hspend]
        exact Nat.lt_of_lt_of_le hbelow hle
    · rename_i spend _ hpermits
      rw [hpermits] at hspend
      cases hstep
      exact gateOf_decay hclock hspend
  | finish index now promptTokens completionTokens =>
    simp only [spendStep] at hstep
    split at hstep
    case isFalse => cases hstep
    rename_i hclock
    obtain ⟨account, hget, rfl⟩ := Option.map_eq_some_iff.mp hstep
    refine (gateOf_decay hclock (Eq.refl (spentAt st.meter.spend key now))).trans ?_
    have hspend := chargeFor_spentAt exact prices account st.meter now promptTokens
      completionTokens key
    have hcount := countP_eraseIdx hget (billed prices key)
    cases hbilled : billed prices key account with
    | false =>
      rw [price_of_not_billed hbilled, Nat.add_zero] at hspend
      simp only [hbilled, Bool.false_eq_true, if_false, Nat.add_zero] at hcount
      simp only [gateOf, hspend, hcount, List.filter_append, List.filter_singleton, hbilled,
        cond_false, List.append_nil]
      exact Relation.ReflTransGen.refl
    | true =>
      rw [if_pos (billed_key hbilled).1.symm] at hspend
      rw [hbilled, if_pos rfl] at hcount
      apply Relation.ReflTransGen.single
      simp only [gateOf, hspend, List.filter_append, List.filter_singleton, hbilled, cond_true,
        List.map_append]
      exact Gate.Step.settle _ hcount.symm
  | look key' now =>
    simp only [spendStep] at hstep
    split at hstep
    case isFalse => cases hstep
    rename_i hclock
    cases hstep
    exact gateOf_decay hclock (spentBy_spentAt _ _ key (le_refl now))

theorem spendRun_gate {capacity : Nat} (hceiling : 0 < (limitsOf key).dailySpendMicros)
    {as : List SpendStep} (hrun : runs (spendStep render prices limitsOf) st as = some st')
    (hroom : along (spendStep render prices limitsOf)
      (Keeps (spendStep render prices limitsOf) fun st => inFlight key st ≤ capacity) st as)
    (hinv : (gateOf prices key st).Inv (2 ^ 64) (limitsOf key).dailySpendMicros capacity) :
    (gateOf prices key st').Inv (2 ^ 64) (limitsOf key).dailySpendMicros capacity := by
  refine runs_invariant_along (spendStep render prices limitsOf)
    (P := fun st => (gateOf prices key st).Inv (2 ^ 64) (limitsOf key).dailySpendMicros capacity)
    ?_ hinv hroom hrun
  intro st a st' hinv hkeeps hstep
  exact hinv.steps (spendStep_gate render hceiling hstep (hkeeps st' hstep))

end Requests

/-! ### What holds -/

/-- **The spend ceiling.** A model that passes the free check costs nothing, the
    price grows with the tokens, and no split is cheaper.  In every run in which
    the identity has at most `capacity` requests running at once, what its
    window adds up to is at every moment below its ceiling and the prices of
    that many requests. -/
theorem spend_ceiling_holds (render : Nat → Text) (prices : List (ModelPrice ℚ))
    (limitsOf : Text → Limits) :
    (∀ model, priceOf exact prices model 1 1 = 0 → ∀ p c, priceOf exact prices model p c = 0) ∧
    (∀ model p c p' c', p ≤ p' → c ≤ c' →
      priceOf exact prices model p c ≤ priceOf exact prices model p' c') ∧
    (∀ model p c parts, tokensOf parts = (p.toNat, c.toNat) →
      (priceOf exact prices model p c).toNat ≤
        (parts.map fun part => (priceOf exact prices model part.1 part.2).toNat).sum) ∧
    ∀ (key : Text) (capacity : Nat) (clock : ℚ) (as : List SpendStep) (st : SpendState),
      0 < (limitsOf key).dailySpendMicros →
      runs (spendStep render prices limitsOf) (.new clock) as = some st →
      along (spendStep render prices limitsOf)
        (Keeps (spendStep render prices limitsOf) fun st => inFlight key st ≤ capacity)
        (.new clock) as →
      ∀ now, st.clock ≤ now → ∃ chosen : List Nat, chosen.Sublist (costsOf key st) ∧
        chosen.length ≤ capacity ∧
        (spentBy st.meter.spend key now).2.toNat <
          (limitsOf key).dailySpendMicros + chosen.sum := by
  refine ⟨?_, ?_, ?_, ?_⟩
  · intro model hfree p c
    exact priceOf_eq_zero hfree p c
  · intro model p c p' c' hp hc
    exact priceOf_mono hp hc
  · intro model p c parts hparts
    exact priceOf_le_parts hparts
  · intro key capacity clock as st hceiling hrun hroom now hnow
    have hinv := spendRun_gate render hceiling hrun hroom (Gate.inv_new hceiling)
    have hlater := hinv.steps (gateOf_decay hnow (Eq.refl (spentAt st.meter.spend key now)))
    obtain ⟨chosen, hsub, hlength, hbelow⟩ := hlater.bounded (by decide)
    refine ⟨chosen, hsub.trans ?_, hlength, ?_⟩
    · apply List.Sublist.map
      apply List.monotone_filter_right
      intro c hbilled
      exact decide_eq_true (billed_key hbilled).1
    · rw [toNat_spentBy]
      exact hbelow

/-- A service with five micro-units a day. -/
def agent : Identity := ⟨.native, 1000, 1000, 4242, some "agent".toList, none, none, none, false⟩

def fiveADay (_ : Text) : Limits := ⟨4096, 8, 1000, 5, [], false, none, false, [['*']]⟩

/-- One request of three tokens and two. -/
def oneRequest : List SpendStep :=
  [.start agent ∅ "large".toList 1, .finish 0 2 3 2]

theorem one_request_bounded :
    ∃ st, runs (spendStep Text.ofNat [⟨['*'], 2, 4⟩] fiveADay) (.new 0) oneRequest = some st ∧
      ∃ chosen : List Nat, chosen.Sublist (costsOf agent.key st) ∧ chosen.length ≤ 1 ∧
        (spentBy st.meter.spend agent.key 3).2.toNat < 5 + chosen.sum := by
  have hruns : (runs (spendStep Text.ofNat [⟨['*'], 2, 4⟩] fiveADay) (.new 0)
      oneRequest).isSome = true := by decide +kernel
  have hclock : (runs (spendStep Text.ofNat [⟨['*'], 2, 4⟩] fiveADay) (.new 0) oneRequest).all
      (fun st => decide (st.clock ≤ 3)) = true := by decide +kernel
  obtain ⟨st, hst⟩ := Option.isSome_iff_exists.mp hruns
  rw [hst] at hclock
  exact ⟨st, hst, (spend_ceiling_holds Text.ofNat [⟨['*'], 2, 4⟩] fiveADay).2.2.2 agent.key 1 0
    oneRequest st (by decide) hst (by decide +kernel) 3 (of_decide_eq_true hclock)⟩

end AiDaemon.Spend
