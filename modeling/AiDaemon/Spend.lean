import AiDaemon.Ledger
import AiDaemon.Policy
import Mathlib.Algebra.Order.Field.Rat
import Mathlib.Data.Rat.Floor

/-!
# The spend ledger (`policy.rs`: `price_of`, `charge_spend`, `record_usage`)

A model's price is an administrator's entry: so much for a million prompt tokens
and so much for a million of output.  What a request cost is put into the ledger
of the identity that made it, with the time; an entry counts for a day.

Prices are `f64`, whose operations are a parameter here, so that nothing depends
on how they round.  `spentAt` is what the ledger says an identity has spent in
the day before a moment, and a charge at that moment raises it by the price and
changes no one else's (`chargeFor_spentAt`).
-/

namespace AiDaemon.Spend

open Ledger Policy

/-! ### The source -/

/-- The operations on `f64` that pricing uses; `toU64` saturates. -/
structure F64 (R : Type) where
  zero : R
  isFinite : R → Bool
  le : R → R → Bool
  mul : R → R → R
  ofU64 : UInt64 → R
  ceil : R → R
  max : R → R → R
  toU64 : R → UInt64

/-- `config::ModelPrice`. -/
structure ModelPrice (R : Type) where
  model : Text
  inputPerMtok : R
  outputPerMtok : R

/-- `u64::saturating_add`. -/
def saturatingAdd (a b : UInt64) : UInt64 := .ofNat (min (a.toNat + b.toNat) (2 ^ 64 - 1))

section Prices

variable {R : Type} (f64 : F64 R) (prices : List (ModelPrice R))

/-- An exact name beats the catch-all. -/
def priceFor (model : Text) : Option (ModelPrice R) :=
  (prices.find? fun p => p.model = model).or (prices.find? fun p => p.model = ['*'])

/-- Rounded up, so that many small requests do not come for nothing. -/
def micros (perMtok : R) (tokens : UInt64) : UInt64 :=
  if !f64.isFinite perMtok || f64.le perMtok f64.zero then 0
  else f64.toU64 (f64.max (f64.ceil (f64.mul perMtok (f64.ofU64 tokens))) f64.zero)

def priceOf (model : Text) (promptTokens completionTokens : UInt64) : UInt64 :=
  match priceFor prices model with
  | none => 0
  | some price =>
    saturatingAdd (micros f64 price.inputPerMtok promptTokens)
      (micros f64 price.outputPerMtok completionTokens)

end Prices

/-- What was consumed, and when, for each identity. -/
abbrev Entries := Table Text (List (ℚ × UInt64))

/-- `SPEND_WINDOW`, in seconds. -/
def spendWindow : ℚ := 24 * 60 * 60

/-- What `retain` keeps. -/
def retained (now : ℚ) (entry : List (ℚ × UInt64)) : List (ℚ × UInt64) :=
  entry.filter fun e => decide (max 0 (now - e.1) < spendWindow)

structure Meter where
  spend : Entries
  usage : Entries

def chargeSpend (spend : Entries) (identity : Identity) (now : ℚ) (micros : UInt64) :
    Entries × UInt64 :=
  let entry := retained now ((spend.lookup identity.key).getD [])
  let entry := if micros > 0 then entry ++ [(now, micros)] else entry
  (spend.insert identity.key entry, (entry.map Prod.snd).sum)

def recordUsage (usage : Entries) (identity : Identity) (now : ℚ) (tokens : UInt64) : Entries :=
  if tokens = 0 then usage
  else
    usage.insert identity.key
      (retained now ((usage.lookup identity.key).getD []) ++ [(now, tokens)])

/-- Whose request it is, and for which model. -/
structure Account where
  identity : Identity
  limits : Limits
  model : Text

/-- `Worker::charge_for`. The usage is counted also where nothing is priced. -/
def chargeFor {R : Type} (f64 : F64 R) (prices : List (ModelPrice R)) (account : Account)
    (meter : Meter) (now : ℚ) (promptTokens completionTokens : UInt64) : Meter :=
  let usage := recordUsage meter.usage account.identity now (promptTokens + completionTokens)
  let micros := priceOf f64 prices account.model promptTokens completionTokens
  if micros = 0 ∧ account.limits.dailySpendMicros = 0 then ⟨meter.spend, usage⟩
  else ⟨(chargeSpend meter.spend account.identity now micros).1, usage⟩

/-! ### What has been spent -/

/-- What the ledger says was spent in the day before `now`. -/
def spentAt (spend : Entries) (key : Text) (now : ℚ) : Nat :=
  ((retained now ((spend.lookup key).getD [])).map fun e => e.2.toNat).sum

@[simp] theorem retained_append (now : ℚ) (l r : List (ℚ × UInt64)) :
    retained now (l ++ r) = retained now l ++ retained now r := by
  simp [retained]

@[simp] theorem retained_retained (now : ℚ) (l : List (ℚ × UInt64)) :
    retained now (retained now l) = retained now l := by
  simp [retained]

@[simp] theorem retained_now (now : ℚ) (n : UInt64) : retained now [(now, n)] = [(now, n)] := by
  have hwindow : (0 : ℚ) < spendWindow := by
    norm_num [spendWindow]
  simp [retained, hwindow]

theorem chargeSpend_spentAt (spend : Entries) (identity : Identity) (now : ℚ) (micros : UInt64) :
    spentAt (chargeSpend spend identity now micros).1 identity.key now =
      spentAt spend identity.key now + micros.toNat := by
  by_cases hmicros : micros > 0
  · simp [spentAt, chargeSpend, hmicros]
  · have hzero : micros = 0 := by
      simpa [UInt64.not_lt] using hmicros
    subst hzero
    simp [spentAt, chargeSpend]

theorem chargeSpend_other (spend : Entries) (identity : Identity) (now : ℚ) (micros : UInt64)
    {key : Text} (h : key ≠ identity.key) (later : ℚ) :
    spentAt (chargeSpend spend identity now micros).1 key later = spentAt spend key later := by
  simp [spentAt, chargeSpend, AList.lookup_insert_ne h]

/-- A charge raises the ledger of its identity by the price and no other. -/
theorem chargeFor_spentAt {R : Type} (f64 : F64 R) (prices : List (ModelPrice R))
    (account : Account) (meter : Meter) (now : ℚ) (promptTokens completionTokens : UInt64)
    (key : Text) :
    spentAt (chargeFor f64 prices account meter now promptTokens completionTokens).spend key now =
      spentAt meter.spend key now +
        if key = account.identity.key then
          (priceOf f64 prices account.model promptTokens completionTokens).toNat
        else 0 := by
  simp only [chargeFor]
  by_cases hfree : priceOf f64 prices account.model promptTokens completionTokens = 0 ∧
      account.limits.dailySpendMicros = 0
  · simp [hfree]
  · rw [if_neg hfree]
    by_cases hkey : key = account.identity.key
    · subst hkey
      rw [if_pos rfl]
      exact chargeSpend_spentAt _ _ _ _
    · rw [if_neg hkey]
      exact chargeSpend_other _ _ _ _ hkey _

end AiDaemon.Spend
