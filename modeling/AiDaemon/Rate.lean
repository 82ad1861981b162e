import AiDaemon.Attenuate
import AiDaemon.Proto
import AiDaemon.TokenBucket

/-!
# Rate limits (`policy.rs`: `Bucket`, `charge_tokens`; `session.rs`: the rate checks)

An identity has one bucket, which all of its sessions charge; it is made by the
first charge, from the limits of the session that makes it.  A session opened at
a lower rate has a bucket of its own besides.  A turn takes its reserve from the
session's bucket and then charges it to the identity's; generating media and
embedding charge an estimate.

Two things go wrong.  A narrowed session carries the lowered number in its
limits, so when it is the one to make the identity's bucket the bucket is made
too small (`shared_rate_iff`).  And only a turn asks the session's own bucket
(`session_rate_bounds`), so media and embeddings are not held to the session's
rate at all.

A bucket by itself is right: `bucket_keeps_rate`.

Levels and times are rationals, the times in seconds.
-/

namespace AiDaemon.Rate

open Ledger Policy Proto TokenBucket Transition

/-! ### The source -/

abbrev Buckets := Table Text (Bucket ℚ)

/-- `Bucket::new`. -/
def newBucket (perMinute : Nat) (now : ℚ) : Bucket ℚ where
  tokens := (max perMinute 1 : Nat)
  capacity := (max perMinute 1 : Nat)
  perSecond := (max perMinute 1 : Nat) / 60
  last := now
  tokens_nonneg := by positivity
  tokens_le := le_rfl
  perSecond_nonneg := by positivity

def chargeTokens (buckets : Buckets) (identity : Identity) (limits : Limits) (now : ℚ)
    (n : UInt64) : Buckets × Bool :=
  let bucket := (buckets.lookup identity.key).getD (newBucket limits.tokensPerMinute now)
  let taken := bucket.take now n.toNat
  (buckets.insert identity.key taken.1, taken.2)

/-- What `revoke` does to the buckets. -/
def revoke (buckets : Buckets) (key : Text) : Buckets := buckets.erase key

/-- `u64::div_ceil`. -/
def divCeil (n d : UInt64) : UInt64 := if n % d > 0 then n / d + 1 else n / d

def estimateTokens (text : Text) : UInt64 := divCeil (.ofNat text.byteLen) 4

def estimatePromptTokens (history : List Message) : UInt64 :=
  (history.map fun m => estimateTokens m.content + 4).sum

/-- `u32::clamp(1, max)`, which panics where there is nothing between. -/
def clampCount (count max : UInt32) : Option UInt32 :=
  if max < 1 then none else some (if count < 1 then 1 else if max < count then max else count)

/-- What the checks read of a worker. -/
structure Worker where
  identity : Identity
  limits : Limits
  /-- `attachments.max_per_session`. -/
  maxPerSession : UInt32

/-- `SessionBudget::take`, where the session has one. -/
def takeBudget (budget : Option (Bucket ℚ)) (now : ℚ) (n : UInt64) : Option (Bucket ℚ) × Bool :=
  match budget with
  | some bucket => (some (bucket.take now n.toNat).1, (bucket.take now n.toNat).2)
  | none => (none, true)

def rateLimited (reason : Text) : ErrorBody := ⟨"rate-limited".toList, reason⟩

def overContextText (promptEstimate maxTokens : UInt64) (effectiveCtx : UInt32) : Text :=
  "roughly ".toList ++ Text.ofNat promptEstimate.toNat ++ " prompt tokens plus ".toList ++
    Text.ofNat maxTokens.toNat ++ " of output exceeds this session's ".toList ++
    Text.ofNat effectiveCtx.toNat ++ " token context".toList

def budgetSpentText (limits : Limits) : Text :=
  "this session was opened at ".toList ++ Text.ofNat limits.tokensPerMinute ++
    (" tokens/minute and has spent them; " ++
      "the identity's own allowance is untouched").toList

def overAllowanceText (worker : Worker) : Text :=
  worker.identity.key ++ " is over its ".toList ++ Text.ofNat worker.limits.tokensPerMinute ++
    " tokens/minute allowance".toList

/-- Where a check leaves the session's bucket and the identities', and what it
    lets through. -/
structure Checked where
  budget : Option (Bucket ℚ)
  buckets : Buckets
  result : Except ErrorBody UInt64

/-- The number of tokens it lets through. -/
def Checked.tokens (checked : Checked) : Nat :=
  match checked.result with
  | .ok n => n.toNat
  | .error _ => 0

section Checks

variable (worker : Worker) (budget : Option (Bucket ℚ)) (buckets : Buckets) (now : ℚ)

/-- The last check of every request. -/
def chargeIdentity (n : UInt64) (refusal : Text) : Checked :=
  let charged := chargeTokens buckets worker.identity worker.limits now n
  { budget := budget
    buckets := charged.1
    result := if charged.2 then .ok n else .error (rateLimited refusal) }

/-- What `turn` checks between loading the model and reserving its cache. -/
def turnCheck (spend : Except Text Unit) (history : List Message) (maxTokens : Option UInt32)
    (effectiveCtx : UInt32) : Checked :=
  let promptEstimate := estimatePromptTokens history
  let maxTokens := (maxTokens.getD 512).toUInt64
  if promptEstimate + maxTokens > effectiveCtx.toUInt64 then
    ⟨budget, buckets, .error ⟨"policy-denied".toList,
      overContextText promptEstimate maxTokens effectiveCtx⟩⟩
  else
    match spend with
    | .error reason => ⟨budget, buckets, .error (rateLimited reason)⟩
    | .ok () =>
      let reserve := promptEstimate + maxTokens
      let taken := takeBudget budget now reserve
      if taken.2 then chargeIdentity worker taken.1 buckets now reserve (overAllowanceText worker)
      else ⟨taken.1, buckets, .error (rateLimited (budgetSpentText worker.limits))⟩

/-- The check of `generate_media`; `none` is the panic of `clamp`. -/
def mediaCheck (prompt : Text) (count : UInt32) : Option Checked :=
  (clampCount count worker.maxPerSession).map fun count =>
    let estimate := estimateTokens prompt + count.toUInt64 * 64
    chargeIdentity worker budget buckets now estimate (overAllowanceText worker)

/-- The checks of `embed`. -/
def embedCheck (spend : Except Text Unit) (inputs : List Text) : Checked :=
  let estimate := (inputs.map estimateTokens).sum
  match spend with
  | .error reason => ⟨budget, buckets, .error (rateLimited reason)⟩
  | .ok () =>
    chargeIdentity worker budget buckets now estimate "over the tokens/minute allowance".toList

end Checks

/-! ### The identity's bucket -/

/-- The bucket holds a minute's worth and fills in a minute. -/
def OfRate (perMinute : Nat) (bucket : Bucket ℚ) : Prop :=
  bucket.capacity = (max perMinute 1 : Nat) ∧ bucket.perSecond = (max perMinute 1 : Nat) / 60

/-- A charge by a session of the identity opened with these options, or a
    revoke of the identity. -/
inductive RateStep where
  | charge (options : Options) (now : ℚ) (n : UInt64)
  | revoke

section Shared

variable (config : Config) (identity : Identity)

/-- The limits of a session opened with these options. -/
def sessionLimits (options : Options) : Limits := attenuate (limitsFor config identity) options

def rateStep (buckets : Buckets) : RateStep → Option Buckets
  | .charge options now n =>
    some (chargeTokens buckets identity (sessionLimits config identity options) now n).1
  | .revoke => some (revoke buckets identity.key)

/-- What the charges answer, each made under the limits of its session. -/
def answers (limitsOf : Options → Limits) : Buckets → List RateStep → List Bool
  | _, [] => []
  | buckets, .charge options now n :: rest =>
    let charged := chargeTokens buckets identity (limitsOf options) now n
    charged.2 :: answers limitsOf charged.1 rest
  | buckets, .revoke :: rest => answers limitsOf (revoke buckets identity.key) rest

/-- The identity's bucket, if it has one, is of the identity's rate. -/
def SharedRate (buckets : Buckets) : Prop :=
  ∀ bucket, buckets.lookup identity.key = some bucket →
    OfRate (limitsFor config identity).tokensPerMinute bucket

/-- A charge that makes the bucket makes it of the identity's rate. -/
def OwnRate (buckets : Buckets) : RateStep → Prop
  | .charge options _ _ => buckets.lookup identity.key = none →
      max (sessionLimits config identity options).tokensPerMinute 1 =
        max (limitsFor config identity).tokensPerMinute 1
  | .revoke => True

variable {config identity}

theorem newBucket_congr {r r' : Nat} (h : max r 1 = max r' 1) (now : ℚ) :
    newBucket r now = newBucket r' now := by
  simp only [newBucket, h]

theorem chargeTokens_congr {buckets : Buckets} {limits limits' : Limits} {now : ℚ} {n : UInt64}
    (h : buckets.lookup identity.key = none →
      max limits.tokensPerMinute 1 = max limits'.tokensPerMinute 1) :
    chargeTokens buckets identity limits now n = chargeTokens buckets identity limits' now n := by
  unfold chargeTokens
  cases hlookup : buckets.lookup identity.key with
  | none =>
    rw [Option.getD_none, Option.getD_none, newBucket_congr (h hlookup)]
  | some bucket => rfl

theorem rateStep_shared_iff (buckets : Buckets) (a : RateStep)
    (hshared : SharedRate config identity buckets) :
    Keeps (rateStep config identity) (SharedRate config identity) buckets a ↔
      OwnRate config identity buckets a := by
  cases a with
  | revoke =>
    simp only [OwnRate, iff_true]
    rintro next hnext bucket hbucket
    simp only [rateStep, Option.some.injEq] at hnext
    subst hnext
    simp [revoke, AList.lookup_erase] at hbucket
  | charge options now n =>
    simp only [Keeps, rateStep, Option.some.injEq, forall_eq', OwnRate, SharedRate, chargeTokens,
      AList.lookup_insert, OfRate, Bucket.take_capacity, Bucket.take_perSecond]
    cases hlookup : buckets.lookup identity.key with
    | some bucket =>
      simp only [Option.getD_some, reduceCtorEq, false_implies, iff_true]
      exact hshared bucket hlookup
    | none =>
      simp only [Option.getD_none, newBucket, true_implies]
      constructor
      · rintro ⟨hcapacity, -⟩
        exact Nat.cast_injective hcapacity
      · intro h
        rw [h]
        exact ⟨rfl, rfl⟩

theorem answers_own {buckets : Buckets} {steps : List RateStep}
    (hown : along (rateStep config identity) (OwnRate config identity) buckets steps) :
    answers identity (sessionLimits config identity) buckets steps =
      answers identity (fun _ => limitsFor config identity) buckets steps := by
  induction steps generalizing buckets with
  | nil => rfl
  | cons a rest ih =>
    obtain ⟨hfirst, hrest⟩ := hown
    cases a with
    | revoke => exact ih hrest
    | charge options now n =>
      have hsame : chargeTokens buckets identity (sessionLimits config identity options) now n =
          chargeTokens buckets identity (limitsFor config identity) now n :=
        chargeTokens_congr hfirst
      have htail := ih hrest
      simp only [answers]
      rw [htail, hsame]

end Shared

/-- Whichever sessions charge in whichever order, the identity's bucket keeps the
    identity's rate throughout exactly when every session that makes it has that
    rate; and then each charge is answered as it would be without narrowing. -/
theorem shared_rate_iff (config : Config) (identity : Identity) (steps : List RateStep) :
    (along (rateStep config identity)
        (Keeps (rateStep config identity) (SharedRate config identity)) ∅ steps ↔
      along (rateStep config identity) (OwnRate config identity) ∅ steps) ∧
    (along (rateStep config identity) (OwnRate config identity) ∅ steps →
      answers identity (sessionLimits config identity) ∅ steps =
        answers identity (fun _ => limitsFor config identity) ∅ steps) := by
  have hstart : SharedRate config identity ∅ := by
    intro bucket hbucket
    simp at hbucket
  refine ⟨?_, answers_own⟩
  exact along_keeps_iff (rateStep config identity) rateStep_shared_iff steps hstart

def slowSession : Options :=
  (∅ : Options).insert "max_tokens_per_minute".toList ⟨none, none, some 100, none, none, none⟩

def terminal : Identity where
  cls := .native
  uid := 1000
  gid := 1000
  pid := 4242
  unit := some "terminal".toList
  appId := none
  exe := none
  client := none
  attested := false

/-- A session held to 100 tokens a minute is the first to charge. -/
theorem narrowed_session_sets_rate :
    ¬ ∀ (config : Config) (identity : Identity) (steps : List RateStep),
      along (rateStep config identity)
        (Keeps (rateStep config identity) (SharedRate config identity)) ∅ steps := by
  intro hall
  have hkeeps := (hall ⟨defaultPolicy, []⟩ terminal [.charge slowSession 0 10]).1
  have hstart : SharedRate ⟨defaultPolicy, []⟩ terminal ∅ := by
    intro bucket hbucket
    simp at hbucket
  have hown := (rateStep_shared_iff ∅ (.charge slowSession 0 10) hstart).mp hkeeps rfl
  revert hown
  decide

/-! ### The session's bucket -/

/-- A request that is charged for. A turn is a new one or one resumed by tool
    results. -/
inductive RateRequest where
  | turn (history : List Message) (maxTokens : Option UInt32) (effectiveCtx : UInt32)
  | media (prompt : Text) (count : UInt32)
  | embed (inputs : List Text)

/-- A request, with what it finds when it is checked: the identities' buckets as
    other sessions have left them, and the answer of the spend check. -/
structure RateCall where
  buckets : Buckets
  now : ℚ
  spend : Except Text Unit
  request : RateRequest

def checkCall (worker : Worker) (budget : Option (Bucket ℚ)) (call : RateCall) : Option Checked :=
  match call.request with
  | .turn history maxTokens effectiveCtx =>
    some (turnCheck worker budget call.buckets call.now call.spend history maxTokens effectiveCtx)
  | .media prompt count => mediaCheck worker budget call.buckets call.now prompt count
  | .embed inputs => some (embedCheck worker budget call.buckets call.now call.spend inputs)

/-- The tokens let through in the window from `a` to `a + T`. The worker ends
    with a panic. -/
def letThrough (worker : Worker) (a T : ℚ) : Option (Bucket ℚ) → List RateCall → Nat
  | _, [] => 0
  | budget, call :: rest =>
    match checkCall worker budget call with
    | none => 0
    | some checked =>
      (if a ≤ call.now ∧ call.now ≤ a + T then checked.tokens else 0) +
        letThrough worker a T checked.budget rest

/-- It is a turn, or there is nothing to charge for. -/
def RateRequest.Budgeted : RateRequest → Prop
  | .turn _ _ _ => True
  | .media _ _ => False
  | .embed inputs => (inputs.map estimateTokens).sum = 0

theorem chargeIdentity_tokens_le (worker : Worker) (budget : Option (Bucket ℚ)) (buckets : Buckets)
    (now : ℚ) (n : UInt64) (refusal : Text) :
    (chargeIdentity worker budget buckets now n refusal).tokens ≤ n.toNat := by
  simp only [chargeIdentity, Checked.tokens]
  split
  · rename_i m hresult
    split at hresult
    · simp only [Except.ok.injEq] at hresult
      rw [hresult]
    · simp at hresult
  · exact Nat.zero_le _

section Session

variable {worker : Worker} {a T : ℚ} (hT : 0 ≤ T)

include hT

/-- What a turn lets through is out of the session's bucket. -/
theorem turnCheck_headroom {bucket : Bucket ℚ} {buckets : Buckets} {now : ℚ}
    (hnow : bucket.last ≤ now) (spend : Except Text Unit) (history : List Message)
    (maxTokens : Option UInt32) (effectiveCtx : UInt32) {checked : Checked}
    (h : turnCheck worker (some bucket) buckets now spend history maxTokens effectiveCtx =
      checked) :
    ∃ next, checked.budget = some next ∧ next.last ≤ now ∧
      (if a ≤ now ∧ now ≤ a + T then (checked.tokens : ℚ) else 0) + next.headroom a T ≤
        bucket.headroom a T := by
  subst h
  simp only [turnCheck]
  split
  · exact ⟨bucket, rfl, hnow, by simp [Checked.tokens]⟩
  · cases spend with
    | error reason => exact ⟨bucket, rfl, hnow, by simp [Checked.tokens]⟩
    | ok =>
      generalize estimatePromptTokens history + (maxTokens.getD 512).toUInt64 = reserve
      have htake := bucket.headroom_take (a := a) hT hnow reserve.toNat
      simp only [takeBudget]
      by_cases htaken : (bucket.take now reserve.toNat).2 = true
      · simp only [htaken, if_true]
        refine ⟨_, rfl, by simp, le_trans ?_ htake⟩
        have hle := chargeIdentity_tokens_le worker (some (bucket.take now reserve.toNat).1) buckets
          now reserve (overAllowanceText worker)
        have hcast : ((chargeIdentity worker (some (bucket.take now reserve.toNat).1) buckets now
            reserve (overAllowanceText worker)).tokens : ℚ) ≤ reserve.toNat := by
          exact_mod_cast hle
        simp only [htaken, true_and]
        apply add_le_add _ le_rfl
        split
        · exact hcast
        · exact le_rfl
      · simp only [htaken]
        refine ⟨_, rfl, by simp, ?_⟩
        simpa [htaken, Checked.tokens] using htake

theorem checkCall_headroom {bucket : Bucket ℚ} {call : RateCall} (hnow : bucket.last ≤ call.now)
    (hbudgeted : call.request.Budgeted) {checked : Checked}
    (h : checkCall worker (some bucket) call = some checked) :
    ∃ next, checked.budget = some next ∧ next.last ≤ call.now ∧
      (if a ≤ call.now ∧ call.now ≤ a + T then (checked.tokens : ℚ) else 0) +
        next.headroom a T ≤ bucket.headroom a T := by
  cases hrequest : call.request with
  | turn history maxTokens effectiveCtx =>
    simp only [checkCall, hrequest, Option.some.injEq] at h
    exact turnCheck_headroom hT hnow call.spend history maxTokens effectiveCtx h
  | media prompt count =>
    rw [hrequest] at hbudgeted
    exact absurd hbudgeted (by simp [RateRequest.Budgeted])
  | embed inputs =>
    rw [hrequest] at hbudgeted
    simp only [RateRequest.Budgeted] at hbudgeted
    simp only [checkCall, hrequest, Option.some.injEq, embedCheck, hbudgeted] at h
    subst h
    cases call.spend with
    | error reason => exact ⟨bucket, rfl, hnow, by simp [Checked.tokens]⟩
    | ok =>
      generalize "over the tokens/minute allowance".toList = refusal
      have hnone := Nat.le_zero.mp
        (chargeIdentity_tokens_le worker (some bucket) call.buckets call.now 0 refusal)
      exact ⟨bucket, rfl, hnow, by simp [hnone]⟩

theorem letThrough_le_headroom (bucket : Bucket ℚ) (calls : List RateCall)
    (htimes : (bucket.last :: calls.map RateCall.now).Pairwise (· ≤ ·))
    (hbudgeted : ∀ call ∈ calls, call.request.Budgeted) :
    (letThrough worker a T (some bucket) calls : ℚ) ≤ bucket.headroom a T := by
  induction calls generalizing bucket with
  | nil => simpa [letThrough] using bucket.headroom_nonneg hT
  | cons call rest ih =>
    simp only [List.map_cons, List.pairwise_cons, List.mem_cons, forall_eq_or_imp] at htimes
    obtain ⟨⟨hnow, -⟩, hlater, hsorted⟩ := htimes
    simp only [letThrough]
    cases hcheck : checkCall worker (some bucket) call with
    | none => simpa using bucket.headroom_nonneg hT
    | some checked =>
      obtain ⟨next, hnext, hlast, hstep⟩ :=
        checkCall_headroom hT hnow (hbudgeted call (List.mem_cons_self ..)) hcheck
      have hrest := ih next
        (List.pairwise_cons.mpr ⟨fun t ht => hlast.trans (hlater t ht), hsorted⟩)
        (fun c hc => hbudgeted c (List.mem_cons_of_mem _ hc))
      simp only [hnext]
      push_cast
      linarith

end Session

/-- A session opened at a lower rate lets through no more than that rate, in any
    window, as long as it only takes turns. -/
theorem session_rate_bounds (worker : Worker) (r : Nat) (hrate : worker.limits.sessionRate = some r)
    (opened : ℚ) (calls : List RateCall)
    (htimes : (opened :: calls.map RateCall.now).Pairwise (· ≤ ·))
    (hbudgeted : ∀ call ∈ calls, call.request.Budgeted) (a T : ℚ) (hT : 0 ≤ T) :
    (letThrough worker a T (worker.limits.sessionRate.map fun rate => newBucket rate opened)
        calls : ℚ) ≤ (max r 1 : Nat) + (max r 1 : Nat) * T / 60 := by
  rw [hrate, Option.map_some]
  have hbound : (letThrough worker a T (some (newBucket r opened)) calls : ℚ) ≤
      (newBucket r opened).headroom a T :=
    letThrough_le_headroom hT (newBucket r opened) calls htimes hbudgeted
  have hfull := (newBucket r opened).headroom_le (a := a) hT
  simp only [newBucket] at hfull
  calc _ ≤ _ := hbound
    _ ≤ _ := hfull
    _ = _ := by ring

/-- The worker of a session held to 100 tokens a minute. -/
def slowWorker : Worker :=
  ⟨terminal, sessionLimits ⟨defaultPolicy, []⟩ terminal slowSession, 16⟩

/-- The identity's own bucket, from the first second on. -/
def terminalBuckets : Buckets := (∅ : Buckets).insert terminal.key (newBucket 600000 0)

def greeting : List Message := [⟨"user".toList, "hello".toList, [], none⟩]

/-- One turn of 22 tokens. -/
theorem session_rate_bounds_greeting :
    (letThrough slowWorker 0 60
        (slowWorker.limits.sessionRate.map fun rate => newBucket rate 0)
        [⟨terminalBuckets, 1, .ok (), .turn greeting (some 16) 4096⟩] : ℚ) ≤
      (max 100 1 : Nat) + (max 100 1 : Nat) * 60 / 60 := by
  apply session_rate_bounds slowWorker 100
  · decide
  · simp
  · simp [RateRequest.Budgeted]
  · norm_num

/-- A session held to 100 tokens a minute asks for sixteen pictures. -/
theorem media_beyond_session_rate :
    ¬ ∀ (worker : Worker) (r : Nat), worker.limits.sessionRate = some r →
      ∀ (opened : ℚ) (calls : List RateCall),
      (opened :: calls.map RateCall.now).Pairwise (· ≤ ·) → ∀ a T : ℚ, 0 ≤ T →
      (letThrough worker a T (worker.limits.sessionRate.map fun rate => newBucket rate opened)
          calls : ℚ) ≤ (max r 1 : Nat) + (max r 1 : Nat) * T / 60 := by
  intro hall
  have hbound := hall slowWorker 100 (by decide) 0
    [⟨terminalBuckets, 1, .ok (), .media "a cat".toList 16⟩] (by simp) 0 60 (by norm_num)
  have hthrough : letThrough slowWorker 0 60
      (slowWorker.limits.sessionRate.map fun rate => newBucket rate 0)
      [⟨terminalBuckets, 1, .ok (), .media "a cat".toList 16⟩] = 1026 := by
    decide +kernel
  rw [hthrough] at hbound
  norm_num at hbound

/-! ### One bucket -/

/-- The level of a bucket of the rate `r` that was opened full and granted these
    takes, and no others. -/
def levelOf (r : Nat) (opened : ℚ) (history : List (Take ℚ)) (now : ℚ) : ℚ :=
  let capacity : ℚ := (max r 1 : Nat)
  Bucket.levelGiven capacity (capacity / 60) capacity opened history now

/-- A bucket of the rate `r` keeps to it over some takes. -/
structure KeepsRate (r : Nat) (opened : ℚ) (takes : List (Take ℚ)) : Prop where
  level : ∀ before, before <+: takes → 0 ≤ ((newBucket r opened).after before).tokens ∧
    ((newBucket r opened).after before).tokens ≤ (max r 1 : Nat)
  window : ∀ a D : ℚ, 0 ≤ D → Bucket.amountIn a D ((newBucket r opened).accepted takes) ≤
    (max r 1 : Nat) + (max r 1 : Nat) * D / 60
  granted : ∀ before t rest, takes = before ++ t :: rest →
    ((((newBucket r opened).after before).take t.now t.amount).2 = true ↔
      (t.amount : ℚ) ≤ levelOf r opened ((newBucket r opened).accepted before) t.now)
  refused : ∀ before t rest, takes = before ++ t :: rest →
    (((newBucket r opened).after before).take t.now t.amount).2 = false →
    (((newBucket r opened).after before).take t.now t.amount).1.tokens =
      (((newBucket r opened).after before).refill t.now).tokens

/-- **A bucket keeps to its rate**, and what it grants depends on what it granted. -/
theorem bucket_keeps_rate (r : Nat) (opened : ℚ) (takes : List (Take ℚ))
    (htimes : (opened :: takes.map Take.now).Pairwise (· ≤ ·)) : KeepsRate r opened takes := by
  have hlevel : ∀ before t rest, takes = before ++ t :: rest →
      levelOf r opened ((newBucket r opened).accepted before) t.now =
        (((newBucket r opened).after before).refill t.now).tokens := by
    intro before t rest htakes
    apply (newBucket r opened).levelGiven_accepted
    refine List.Pairwise.sublist ?_ htimes
    rw [htakes, List.map_append, List.map_cons]
    apply List.Sublist.cons_cons
    apply (List.Sublist.refl _).append
    exact (List.nil_sublist _).cons_cons _
  constructor
  · intro before _
    refine ⟨Bucket.tokens_nonneg _, ?_⟩
    have hle := ((newBucket r opened).after before).tokens_le
    rw [Bucket.after_capacity] at hle
    exact hle
  · intro a D hD
    have hroom := (newBucket r opened).accepted_le_headroom (a := a) hD takes htimes
    have hfull := (newBucket r opened).headroom_le (a := a) hD
    simp only [newBucket] at hfull
    calc _ ≤ _ := hroom
      _ ≤ _ := hfull
      _ = _ := by ring
  · intro before t rest htakes
    rw [hlevel before t rest htakes]
    exact Bucket.take_accepted _ _ _
  · intro before t rest _ hrefused
    rw [Bucket.take_refused_level _ hrefused]

/-- A minute's worth at once, one more that is refused, and half a minute later a
    half of it. -/
theorem bucket_keeps_rate_burst : KeepsRate 60 0 [⟨0, 60⟩, ⟨1, 2⟩, ⟨30, 30⟩] := by
  apply bucket_keeps_rate
  norm_num

end AiDaemon.Rate
