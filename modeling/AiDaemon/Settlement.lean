import AiDaemon.Rate
import AiDaemon.Turn

/-!
# Settling a turn (`session.rs`: `turn` from its reservation to its end)

A turn reserves its prompt and its output before it runs.  What it really used is
known when it ends, attachments included, and where that is more the difference is
charged then.  That charge is made like any other, so a bucket that does not hold
the difference refuses it, and nobody looks at the answer.

While the bucket holds every difference, what turns use in a window is bounded by
the rate, up to the difference of one turn (`settled_use_bounded`).
-/

namespace AiDaemon.Settlement

open Ledger Policy Proto Rate Spend TokenBucket Transition Turn

/-! ### The source -/

/-- `u64::saturating_mul`. -/
def saturatingMul (a b : UInt64) : UInt64 := .ofNat (min (a.toNat * b.toNat) (2 ^ 64 - 1))

def estimateAttachmentTokens (attachment : RawAttachment) : UInt64 :=
  if attachment.kind = "image".toList then
    let pixels := saturatingMul (attachment.w.getD 0).toUInt64 (attachment.h.getD 0).toUInt64
    divCeil pixels 784
  else if attachment.kind = "audio".toList then
    let samples := UInt64.ofNat attachment.data.length / 4
    let rate := (max (attachment.rate.getD 16000) 1).toUInt64
    divCeil (samples * 50) rate
  else 0

/-- The attachments of a conversation that the session still holds. -/
def attachmentsOf (history : List Message) (held : Table Text RawAttachment) :
    List RawAttachment :=
  (history.flatMap fun m => m.attachments).filterMap fun id => held.lookup id

/-- The part of a turn after `begin`. -/
structure Begun (F : Type) where
  arrivals : List (Arrival F)
  /-- When it is settled. -/
  ended : ℚ

/-- A turn of some session of the identity. -/
structure TurnCall (R J F : Type) where
  worker : TurnWorker R J
  budget : Option (Bucket ℚ)
  spend : Except Text Unit
  history : List Message
  held : Table Text RawAttachment
  pendingToolCalls : List Text
  maxTokens : Option UInt32
  effectiveCtx : UInt32
  now : ℚ
  /-- `none` where it returns between its reservation and `begin`. -/
  begun : Option (Begun F)

structure Shared where
  buckets : Buckets
  meter : Meter

/-- What a turn reserved and what it used. -/
structure Record where
  now : ℚ
  reserve : UInt64
  actual : UInt64
deriving DecidableEq

def actualOf (usage : Usage) : UInt64 :=
  usage.promptTokens + usage.completionTokens + usage.attachmentTokens

def settle (buckets : Buckets) (identity : Identity) (limits : Limits) (now : ℚ)
    (reserve actual : UInt64) : Buckets :=
  if actual > reserve then (chargeTokens buckets identity limits now (actual - reserve)).1
  else buckets

section Turns

variable {R J F : Type}

/-- What the rate checks of a turn leave. -/
def TurnCall.checked (call : TurnCall R J F) (buckets : Buckets) : Checked :=
  turnCheck ⟨call.worker.account.identity, call.worker.account.limits, 0⟩ call.budget buckets
    call.now call.spend call.history call.maxTokens call.effectiveCtx

/-- Where the event loop of a turn ends. -/
def TurnCall.loop (call : TurnCall R J F) (begun : Begun F) (meter : Meter) :
    Option (TurnState F) :=
  turnLoop call.worker (estimatePromptTokens call.history)
    ((attachmentsOf call.history call.held).map estimateAttachmentTokens).sum meter call.history
    call.pendingToolCalls begun.arrivals

/-- A whole turn. `none` while it has not ended. -/
def turn (st : Shared) (call : TurnCall R J F) : Option (Shared × Option Record) :=
  let checked := call.checked st.buckets
  match checked.result, call.begun with
  | .error _, _ => some (⟨checked.buckets, st.meter⟩, none)
  | .ok _, none => some (⟨checked.buckets, st.meter⟩, none)
  | .ok reserve, some begun =>
    match call.loop begun st.meter with
    | none => none
    | some ended =>
      let account := call.worker.account
      let actual := actualOf ended.usage
      some (⟨settle checked.buckets account.identity account.limits begun.ended reserve actual,
          ended.meter⟩, some ⟨call.now, reserve, actual⟩)

/-- Turns one after another, and what each of them that ran reserved and used. -/
def turns : Shared → List (TurnCall R J F) → Option (List Record)
  | _, [] => some []
  | st, call :: rest =>
    match turn st call with
    | none => none
    | some (next, record) => (turns next rest).map (record.toList ++ ·)

end Turns

/-! ### What turns use in a window -/

section Window

variable (a T : ℚ)

def Record.within (record : Record) : Prop := a ≤ record.now ∧ record.now ≤ a + T

instance (record : Record) : Decidable (record.within a T) :=
  inferInstanceAs (Decidable (_ ∧ _))

/-- What the turns begun in the window used. -/
def used (records : List Record) : Nat :=
  ((records.filter fun record => record.within a T).map fun record => record.actual.toNat).sum

/-- The largest difference between what a turn begun in the window used and what
    it had reserved. -/
def largestOverage (records : List Record) : Nat :=
  ((records.filter fun record => record.within a T).map fun record =>
    record.actual.toNat - record.reserve.toNat).foldr max 0

end Window

section Run

variable {R J F : Type}

def turnStep (st : Shared) (call : TurnCall R J F) : Option Shared := (turn st call).map Prod.fst

/-- What the turn uses beyond its reservation is in the bucket, brought up to
    date, when it is settled. -/
def Repayable (st : Shared) (call : TurnCall R J F) : Prop :=
  ∀ reserve begun ended bucket, (call.checked st.buckets).result = .ok reserve →
    call.begun = some begun → call.loop begun st.meter = some ended →
    reserve < actualOf ended.usage →
    (call.checked st.buckets).buckets.lookup call.worker.account.identity.key = some bucket →
    ((actualOf ended.usage - reserve).toNat : ℚ) ≤ (bucket.refill begun.ended).tokens

def TurnCall.finished (call : TurnCall R J F) : ℚ :=
  match call.begun with
  | some begun => begun.ended
  | none => call.now

/-- Each turn begins when the one before it is over. -/
def Sequential : ℚ → List (TurnCall R J F) → Prop
  | _, [] => True
  | t, call :: rest => t ≤ call.now ∧ call.now ≤ call.finished ∧ Sequential call.finished rest

/-- Every turn is one of the identity's, in a session at its rate or narrowed
    below it. -/
def Own (identity : Identity) (r : Nat) (calls : List (TurnCall R J F)) : Prop :=
  ∀ call ∈ calls, call.worker.account.identity = identity ∧
    call.worker.account.limits.tokensPerMinute ≤ r

end Run

/-! ### The identity's bucket over a run -/

/-- The bucket is of the rate or of a lower one. -/
def WithinRate (r : Nat) (bucket : Bucket ℚ) : Prop :=
  bucket.capacity ≤ (max r 1 : Nat) ∧ bucket.perSecond ≤ (max r 1 : Nat) / 60

/-- The identity's bucket, if it has one, is within the rate and not ahead of
    time. -/
def BucketInv (identity : Identity) (r : Nat) (t : ℚ) (buckets : Buckets) : Prop :=
  ∀ bucket, buckets.lookup identity.key = some bucket → WithinRate r bucket ∧ bucket.last ≤ t

/-- What the identity can still be given in the window. -/
def room (identity : Identity) (r : Nat) (a T : ℚ) (buckets : Buckets) : ℚ :=
  match buckets.lookup identity.key with
  | some bucket => bucket.headroom a T
  | none => (max r 1 : Nat) + (max r 1 : Nat) / 60 * T

section Room

variable {identity : Identity} {r : Nat} {a T t now : ℚ} {buckets : Buckets}

theorem BucketInv.mono (hinv : BucketInv identity r t buckets) (h : t ≤ now) :
    BucketInv identity r now buckets := by
  intro bucket hlookup
  obtain ⟨hrate, hlast⟩ := hinv bucket hlookup
  exact ⟨hrate, hlast.trans h⟩

theorem newBucket_withinRate {perMinute : Nat} (h : perMinute ≤ r) (now : ℚ) :
    WithinRate r (newBucket perMinute now) := by
  have hcast : ((max perMinute 1 : Nat) : ℚ) ≤ (max r 1 : Nat) := by
    exact_mod_cast max_le_max_right 1 h
  refine ⟨hcast, ?_⟩
  show ((max perMinute 1 : Nat) : ℚ) / 60 ≤ (max r 1 : Nat) / 60
  linarith

theorem WithinRate.headroom_le {bucket : Bucket ℚ} (h : WithinRate r bucket) (hT : 0 ≤ T) :
    bucket.headroom a T ≤ (max r 1 : Nat) + (max r 1 : Nat) / 60 * T := by
  calc bucket.headroom a T
      ≤ bucket.capacity + bucket.perSecond * T := bucket.headroom_le hT
    _ ≤ (max r 1 : Nat) + (max r 1 : Nat) / 60 * T :=
      add_le_add h.1 (mul_le_mul_of_nonneg_right h.2 hT)

theorem room_le (hT : 0 ≤ T) (hinv : BucketInv identity r t buckets) :
    room identity r a T buckets ≤ (max r 1 : Nat) + (max r 1 : Nat) / 60 * T := by
  unfold room
  split
  · rename_i bucket hlookup
    exact (hinv bucket hlookup).1.headroom_le hT
  · exact le_rfl

theorem room_nonneg (hT : 0 ≤ T) : 0 ≤ room identity r a T buckets := by
  unfold room
  split
  · rename_i bucket _
    exact bucket.headroom_nonneg hT
  · positivity

/-- A charge keeps the bucket as it should be and takes from the room what it
    gives. -/
theorem chargeTokens_room (hT : 0 ≤ T) (hinv : BucketInv identity r t buckets) (hnow : t ≤ now)
    {limits : Limits} (hlimits : limits.tokensPerMinute ≤ r) (n : UInt64) :
    BucketInv identity r now (chargeTokens buckets identity limits now n).1 ∧
      (if (chargeTokens buckets identity limits now n).2 = true ∧ a ≤ now ∧ now ≤ a + T
        then (n.toNat : ℚ) else 0) +
        room identity r a T (chargeTokens buckets identity limits now n).1 ≤
      room identity r a T buckets := by
  -- the bucket that is charged, whether it was there or is made now
  obtain ⟨bucket, hbucket, hrate, hlast, hroom⟩ : ∃ bucket : Bucket ℚ,
      (buckets.lookup identity.key).getD (newBucket limits.tokensPerMinute now) = bucket ∧
      WithinRate r bucket ∧ bucket.last ≤ now ∧
      bucket.headroom a T ≤ room identity r a T buckets := by
    cases hlookup : buckets.lookup identity.key with
    | some bucket =>
      obtain ⟨hrate, hlast⟩ := hinv bucket hlookup
      refine ⟨bucket, rfl, hrate, hlast.trans hnow, ?_⟩
      simp [room, hlookup]
    | none =>
      have hrate := newBucket_withinRate hlimits now
      refine ⟨_, rfl, hrate, le_rfl, ?_⟩
      simp only [room, hlookup]
      exact hrate.headroom_le hT
  have htake := bucket.headroom_take (a := a) hT hlast n.toNat
  simp only [chargeTokens, hbucket]
  constructor
  · intro next hnext
    rw [AList.lookup_insert, Option.some.injEq] at hnext
    subst hnext
    simpa [WithinRate] using hrate
  · simp only [room, AList.lookup_insert]
    exact htake.trans hroom

end Room

section Step

variable {R J F : Type} {identity : Identity} {r : Nat} {a T t : ℚ} {st : Shared}
  {call : TurnCall R J F}

/-- The checks keep the bucket and take what they let through from the room. -/
theorem checked_room (hT : 0 ≤ T) (hinv : BucketInv identity r t st.buckets) (hnow : t ≤ call.now)
    (hwho : call.worker.account.identity = identity)
    (hlimits : call.worker.account.limits.tokensPerMinute ≤ r) :
    BucketInv identity r call.now (call.checked st.buckets).buckets ∧
      (if a ≤ call.now ∧ call.now ≤ a + T then ((call.checked st.buckets).tokens : ℚ) else 0) +
        room identity r a T (call.checked st.buckets).buckets ≤
      room identity r a T st.buckets := by
  have hunchanged : BucketInv identity r call.now st.buckets := hinv.mono hnow
  simp only [TurnCall.checked, turnCheck, hwho]
  split
  · exact ⟨hunchanged, by simp [Checked.tokens]⟩
  · cases call.spend with
    | error reason => exact ⟨hunchanged, by simp [Checked.tokens]⟩
    | ok =>
      simp only
      split
      · generalize estimatePromptTokens call.history + (call.maxTokens.getD 512).toUInt64 = reserve
        obtain ⟨hkept, hroom⟩ := chargeTokens_room (a := a) hT hinv hnow hlimits reserve
        refine ⟨hkept, le_trans ?_ hroom⟩
        simp only [chargeIdentity, Checked.tokens]
        by_cases hcharged : (chargeTokens st.buckets identity call.worker.account.limits call.now
            reserve).2 = true
        · simp [hcharged]
        · simp [hcharged]
      · exact ⟨hunchanged, by simp [Checked.tokens]⟩

/-- A difference that the bucket holds is taken from the room. -/
theorem settle_room (hT : 0 ≤ T) {buckets : Buckets} {now : ℚ}
    (hinv : BucketInv identity r t buckets) (hnow : t ≤ now) {limits : Limits}
    (hlimits : limits.tokensPerMinute ≤ r) {reserve actual : UInt64} {bucket : Bucket ℚ}
    (hlookup : buckets.lookup identity.key = some bucket)
    (hholds : reserve < actual → ((actual - reserve).toNat : ℚ) ≤ (bucket.refill now).tokens) :
    BucketInv identity r now (settle buckets identity limits now reserve actual) ∧
      (if a ≤ now ∧ now ≤ a + T then ((actual.toNat - reserve.toNat : Nat) : ℚ) else 0) +
        room identity r a T (settle buckets identity limits now reserve actual) ≤
      room identity r a T buckets := by
  unfold settle
  by_cases hover : reserve < actual
  · have htoNat : (actual - reserve).toNat = actual.toNat - reserve.toNat :=
      UInt64.toNat_sub_of_le _ _ (UInt64.le_of_lt hover)
    obtain ⟨hkept, hroom⟩ := chargeTokens_room (a := a) hT hinv hnow hlimits (actual - reserve)
    have hcharged : (chargeTokens buckets identity limits now (actual - reserve)).2 = true := by
      simp only [chargeTokens, hlookup, Option.getD_some]
      exact (bucket.take_accepted now _).mpr (hholds hover)
    rw [if_pos hover]
    refine ⟨hkept, ?_⟩
    simpa only [hcharged, true_and, htoNat] using hroom
  · have hnone : actual.toNat - reserve.toNat = 0 := by
      have hle := UInt64.le_iff_toNat_le.mp (UInt64.not_lt.mp hover)
      omega
    rw [if_neg hover, hnone]
    exact ⟨hinv.mono hnow, by simp⟩

theorem turn_cases {next : Shared} {record : Option Record}
    (hturn : turn st call = some (next, record)) :
    (record = none ∧ next.buckets = (call.checked st.buckets).buckets) ∨
      ∃ reserve begun ended, (call.checked st.buckets).result = .ok reserve ∧
        call.begun = some begun ∧ call.loop begun st.meter = some ended ∧
        record = some ⟨call.now, reserve, actualOf ended.usage⟩ ∧
        next.buckets = settle (call.checked st.buckets).buckets call.worker.account.identity
          call.worker.account.limits begun.ended reserve (actualOf ended.usage) := by
  simp only [turn] at hturn
  split at hturn
  · simp only [Option.some.injEq, Prod.mk.injEq] at hturn
    exact Or.inl ⟨hturn.2.symm, by rw [← hturn.1]⟩
  · simp only [Option.some.injEq, Prod.mk.injEq] at hturn
    exact Or.inl ⟨hturn.2.symm, by rw [← hturn.1]⟩
  · rename_i reserve begun hresult hbegun
    split at hturn
    · simp at hturn
    · rename_i ended hloop
      simp only [Option.some.injEq, Prod.mk.injEq] at hturn
      refine Or.inr ⟨reserve, begun, ended, hresult, hbegun, hloop, hturn.2.symm, ?_⟩
      rw [← hturn.1]

/-- What lets a turn through has charged its identity. -/
theorem checked_bucket (hwho : call.worker.account.identity = identity) {reserve : UInt64}
    (hresult : (call.checked st.buckets).result = .ok reserve) :
    ∃ bucket, (call.checked st.buckets).buckets.lookup identity.key = some bucket := by
  revert hresult
  simp only [TurnCall.checked, turnCheck, hwho]
  split
  · simp
  · cases call.spend with
    | error reason => simp
    | ok =>
      simp only
      split
      · intro _
        simp [chargeIdentity, chargeTokens]
      · simp

end Step

/-! ### Runs -/

section Records

variable {a T : ℚ}

theorem used_append (l k : List Record) : used a T (l ++ k) = used a T l + used a T k := by
  simp [used]

theorem used_singleton (record : Record) :
    used a T [record] = if record.within a T then record.actual.toNat else 0 := by
  by_cases hwithin : record.within a T
  · simp [used, hwithin]
  · simp [used, hwithin]

theorem largestOverage_cons (record : Record) (records : List Record) :
    largestOverage a T records ≤ largestOverage a T (record :: records) ∧
      (record.within a T →
        record.actual.toNat - record.reserve.toNat ≤ largestOverage a T (record :: records)) := by
  by_cases hwithin : record.within a T
  · simp [largestOverage, hwithin]
  · simp [largestOverage, hwithin]

/-- A turn that reserved out of the room and was settled out of the room. Where it
    was settled after the window it was the last turn in it, and its difference is
    the one that is left over. -/
theorem used_cons_le {record : Record} {later : List Record} {ended room₀ room₁ room₂ : ℚ}
    (hleft : 0 ≤ room₂)
    (hreserve : (if a ≤ record.now ∧ record.now ≤ a + T then (record.reserve.toNat : ℚ) else 0) +
      room₁ ≤ room₀)
    (hpaid : (if a ≤ ended ∧ ended ≤ a + T then
      ((record.actual.toNat - record.reserve.toNat : Nat) : ℚ) else 0) + room₂ ≤ room₁)
    (huntil : record.now ≤ ended) (hlate : a + T < ended → used a T later = 0)
    (hrest : (used a T later : ℚ) ≤ room₂ + largestOverage a T later) :
    (used a T ([record] ++ later) : ℚ) ≤ room₀ + largestOverage a T ([record] ++ later) := by
  obtain ⟨hlargest, hover⟩ := largestOverage_cons (a := a) (T := T) record later
  have hlargest' : (largestOverage a T later : ℚ) ≤ largestOverage a T (record :: later) := by
    exact_mod_cast hlargest
  have hactual : (record.actual.toNat : ℚ) ≤ record.reserve.toNat +
      (record.actual.toNat - record.reserve.toNat : Nat) := by
    exact_mod_cast (by omega : record.actual.toNat ≤
      record.reserve.toNat + (record.actual.toNat - record.reserve.toNat))
  rw [used_append, used_singleton, List.singleton_append, Nat.cast_add]
  by_cases hin : record.within a T
  · have hover' : ((record.actual.toNat - record.reserve.toNat : Nat) : ℚ) ≤
        largestOverage a T (record :: later) := by
      exact_mod_cast hover hin
    rw [if_pos (show a ≤ record.now ∧ record.now ≤ a + T from hin)] at hreserve
    rw [if_pos hin]
    by_cases hend : ended ≤ a + T
    · rw [if_pos ⟨hin.1.trans huntil, hend⟩] at hpaid
      linarith
    · rw [if_neg (fun h => hend h.2)] at hpaid
      rw [hlate (not_le.mp hend), Nat.cast_zero]
      linarith
  · have hpaid' : (0 : ℚ) ≤ if a ≤ ended ∧ ended ≤ a + T then
        ((record.actual.toNat - record.reserve.toNat : Nat) : ℚ) else 0 := by
      split <;> positivity
    rw [if_neg (show ¬ (a ≤ record.now ∧ record.now ≤ a + T) from hin)] at hreserve
    rw [if_neg hin, Nat.cast_zero]
    linarith

end Records

section Runs

variable {R J F : Type} {identity : Identity} {r : Nat} {a T : ℚ}

/-- Turns that begin after the window use nothing in it. -/
theorem used_late {t : ℚ} (hlate : a + T < t) {st : Shared} {calls : List (TurnCall R J F)}
    (horder : Sequential t calls) {records : List Record} (hrun : turns st calls = some records) :
    used a T records = 0 := by
  induction calls generalizing t st records with
  | nil =>
    simp only [turns, Option.some.injEq] at hrun
    subst hrun
    rfl
  | cons call rest ih =>
    obtain ⟨hfrom, huntil, hrest⟩ := horder
    simp only [turns] at hrun
    split at hrun
    · simp at hrun
    · rename_i next record hturn
      simp only [Option.map_eq_some_iff] at hrun
      obtain ⟨later, hlater, rfl⟩ := hrun
      have hafter := ih (hlate.trans_le (hfrom.trans huntil)) hrest hlater
      rw [used_append, hafter, Nat.add_zero]
      rcases turn_cases hturn with ⟨rfl, -⟩ | ⟨reserve, begun, ended, -, -, -, rfl, -⟩
      · rfl
      · have hout : ¬ (a ≤ call.now ∧ call.now ≤ a + T) := by
          rintro ⟨-, hin⟩
          exact absurd (hlate.trans_le hfrom) (not_lt.mpr hin)
        rw [Option.toList_some, used_singleton]
        exact if_neg hout

theorem used_le_room (hT : 0 ≤ T) {t : ℚ} {st : Shared} {calls : List (TurnCall R J F)}
    (hinv : BucketInv identity r t st.buckets) (horder : Sequential t calls)
    (hown : Own identity r calls) (hrepaid : along turnStep Repayable st calls)
    {records : List Record} (hrun : turns st calls = some records) :
    (used a T records : ℚ) ≤ room identity r a T st.buckets + largestOverage a T records := by
  induction calls generalizing t st records with
  | nil =>
    simp only [turns, Option.some.injEq] at hrun
    subst hrun
    have hroom : 0 ≤ room identity r a T st.buckets := room_nonneg hT
    simpa [used, largestOverage] using hroom
  | cons call rest ih =>
    obtain ⟨hfrom, huntil, hlater⟩ := horder
    obtain ⟨hwho, hlimits⟩ := hown call List.mem_cons_self
    have hown' : Own identity r rest := fun c hc => hown c (List.mem_cons_of_mem _ hc)
    obtain ⟨hrepay, hrepaid'⟩ := hrepaid
    simp only [turns] at hrun
    split at hrun
    · simp at hrun
    · rename_i next record hturn
      simp only [Option.map_eq_some_iff] at hrun
      obtain ⟨later, hlaterRun, rfl⟩ := hrun
      simp only [turnStep, hturn, Option.map_some] at hrepaid'
      obtain ⟨hkept, hroom⟩ := checked_room (a := a) hT hinv hfrom hwho hlimits
      rcases turn_cases hturn with
        ⟨rfl, hnext⟩ | ⟨reserve, begun, ended, hresult, hbegun, hloop, rfl, hnext⟩
      · -- nothing ran
        rw [← hnext] at hkept hroom
        have hrest := ih (hkept.mono huntil) hlater hown' hrepaid' hlaterRun
        have htokens : (0 : ℚ) ≤ if a ≤ call.now ∧ call.now ≤ a + T then
            ((call.checked st.buckets).tokens : ℚ) else 0 := by
          split <;> positivity
        rw [Option.toList_none, List.nil_append]
        linarith
      · have hended : call.finished = begun.ended := by
          simp [TurnCall.finished, hbegun]
        rw [hended] at huntil hlater
        obtain ⟨bucket, hbucket⟩ := checked_bucket hwho hresult
        have hholds := hrepay reserve begun ended bucket hresult hbegun hloop
        rw [hwho] at hholds hnext
        obtain ⟨hsettled, hpaid⟩ := settle_room (a := a) hT hkept huntil hlimits hbucket
          (fun hover => hholds hover hbucket)
        rw [← hnext] at hsettled hpaid
        have hrest := ih hsettled hlater hown' hrepaid' hlaterRun
        have htokens : (call.checked st.buckets).tokens = reserve.toNat := by
          simp [Checked.tokens, hresult]
        rw [htokens] at hroom
        exact used_cons_le (room_nonneg hT) hroom hpaid huntil
          (fun hlate => used_late hlate hlater hlaterRun) hrest

end Runs

/-- While every difference is in the bucket when it is settled, what an identity's
    turns use in any window is bounded by its rate, up to the difference of one
    turn. -/
theorem settled_use_bounded {R J F : Type} (identity : Identity) (r : Nat) (t : ℚ) (st : Shared)
    (hstart : BucketInv identity r t st.buckets) (calls : List (TurnCall R J F))
    (hown : Own identity r calls) (horder : Sequential t calls) (records : List Record)
    (hrun : turns st calls = some records) (hrepaid : along turnStep Repayable st calls)
    (a T : ℚ) (hT : 0 ≤ T) :
    (used a T records : ℚ) ≤
      (max r 1 : Nat) + (max r 1 : Nat) * T / 60 + largestOverage a T records := by
  have hused := used_le_room (a := a) hT hstart horder hown hrepaid hrun
  have hroom := room_le (a := a) hT hstart
  have hrate : ((max r 1 : Nat) : ℚ) / 60 * T = (max r 1 : Nat) * T / 60 := by ring
  linarith

/-- A square picture in four bytes a pixel. -/
def picture (side : UInt32) : RawAttachment where
  id := "a".toList
  kind := "image".toList
  w := some side
  h := some side
  fmt := none
  rate := none
  data := List.replicate (side.toNat * side.toNat * 4) 0

/-- A turn with a picture in it, at 1000 tokens a minute and a reserve of 22. -/
def pictureTurn (now : ℚ) (side : UInt32) : TurnCall ℚ Nat Nat where
  worker := hosted
  budget := none
  spend := .ok ()
  history := [⟨"user".toList, "hello".toList, ["a".toList], none⟩]
  held := (∅ : Table Text RawAttachment).insert "a".toList (picture side)
  pendingToolCalls := []
  maxTokens := some 16
  effectiveCtx := 4096
  now := now
  begun := some
    { arrivals := [⟨.ok (.done 1 ⟨6, 1, 0, 0⟩ none), now + 1, true⟩]
      ended := now + 1 }

def fresh : Shared := ⟨∅, ∅, ∅⟩

theorem pictureTurn_repayable : Repayable fresh (pictureTurn 0 280) := by
  intro reserve begun ended bucket hresult hbegun hloop _ hlookup
  have hreserve : ((pictureTurn 0 280).checked fresh.buckets).result.toOption = some 22 := by
    decide +kernel
  have hactual : (((pictureTurn 0 280).begun.bind fun begun =>
      (pictureTurn 0 280).loop begun fresh.meter).map fun ended => actualOf ended.usage) =
      some 107 := by
    decide +kernel
  have htokens : (((pictureTurn 0 280).checked fresh.buckets).buckets.lookup remoteUser.key).map
      (fun bucket => decide (85 ≤ (bucket.refill 1).tokens)) = some true := by
    decide +kernel
  have hended : begun.ended = 1 := by
    simp only [pictureTurn, Option.some.injEq] at hbegun
    rw [← hbegun]
    norm_num
  rw [hresult] at hreserve
  rw [hbegun, Option.bind_some, hloop] at hactual
  rw [show (pictureTurn 0 280).worker.account.identity.key = remoteUser.key from rfl] at hlookup
  rw [hlookup] at htokens
  simp only [Except.toOption, Option.some.injEq] at hreserve
  simp only [Option.map_some, Option.some.injEq, decide_eq_true_eq] at hactual htokens
  rw [hreserve, hactual, hended]
  exact htokens

/-- A small picture is paid for. -/
theorem settled_use_bounded_picture :
    (used 0 60 [⟨0, 22, 107⟩] : ℚ) ≤
      (max 1000 1 : Nat) + (max 1000 1 : Nat) * 60 / 60 + largestOverage 0 60 [⟨0, 22, 107⟩] := by
  apply settled_use_bounded remoteUser 1000 0 fresh ?_ [pictureTurn 0 280]
  · simp [Own, pictureTurn, hosted]
  · simp [Sequential, pictureTurn, TurnCall.finished]
  · decide +kernel
  · refine ⟨pictureTurn_repayable, ?_⟩
    split <;> trivial
  · norm_num
  · intro bucket hlookup
    simp [fresh] at hlookup

/-- Two pictures larger than the bucket, one after the other. -/
theorem overage_forgiven :
    ¬ ∀ (identity : Identity) (r : Nat) (t : ℚ) (st : Shared),
      BucketInv identity r t st.buckets → ∀ calls : List (TurnCall ℚ Nat Nat),
      Own identity r calls → Sequential t calls → ∀ records : List Record,
      turns st calls = some records → ∀ a T : ℚ, 0 ≤ T →
      (used a T records : ℚ) ≤
        (max r 1 : Nat) + (max r 1 : Nat) * T / 60 + largestOverage a T records := by
  intro hall
  have hrun : turns fresh [pictureTurn 0 1400, pictureTurn 1 1400] =
      some [⟨0, 22, 2507⟩, ⟨1, 22, 2507⟩] := by
    decide +kernel
  have hbound := hall remoteUser 1000 0 fresh (by simp [BucketInv, fresh])
    [pictureTurn 0 1400, pictureTurn 1 1400] (by simp [Own, pictureTurn, hosted])
    (by simp [Sequential, pictureTurn, TurnCall.finished]) _ hrun 0 1 (by norm_num)
  have hused : used 0 1 [⟨0, 22, 2507⟩, ⟨1, 22, 2507⟩] = 5014 := by
    decide +kernel
  have hover : largestOverage 0 1 [⟨0, 22, 2507⟩, ⟨1, 22, 2507⟩] = 2485 := by
    decide +kernel
  rw [hused, hover] at hbound
  norm_num at hbound

end AiDaemon.Settlement
