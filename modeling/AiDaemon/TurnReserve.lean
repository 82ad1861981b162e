import AiDaemon.AuditSlices
import AiDaemon.WholeTurn

/-!
# What a turn reserves and what it sends

The reserve of a turn is made from its history.  What is sent is another text: the
machine's prelude in front, a marker around every message that is not the model's own,
and the attachments.  None of these is in the reserve, so it covers the request only
where they come to nothing (`reserve_covers_iff`).  There is one way for a marked message
to get smaller, and that is to hold the nonce of its session, which is taken out.
-/

namespace AiDaemon.WholeTurn

open Fallible Grants Json Ledger Occurs Policy Proto Rate Settlement
open Provenance (framedMessages framed preludeMessages element defang stripTag tagHit tagNames
  contains lower)
open Audit (byteLen_cons)

/-! ### What is compared -/

/-- The estimate of one message. -/
def tokensIn (message : Message) : Nat := (estimateTokens message.content).toNat + 4

def tokensOf (messages : List Message) : Nat := (messages.map tokensIn).sum

def attachmentTokensOf (attachments : List RawAttachment) : Nat :=
  (attachments.map fun a => (estimateAttachmentTokens a).toNat).sum

/-- The most tokens that can be generated. -/
def maxTokensOf {F : Type} (params : Params F) : UInt32 := params.maxTokens.getD 512

/-- Everything a request asks the backend to hold. -/
def tokensSent {F J : Type} : BackendRequest F J → Nat
  | .generate _ _ _ messages params _ _ _ attachments =>
    tokensOf messages + attachmentTokensOf attachments + (maxTokensOf params).toNat
  | _ => 0

/-- No more than what some messages take up in memory. -/
def memoryOf (messages : List Message) : Nat :=
  (messages.map fun m => Text.byteLen m.content + 4).sum

/-- A turn on a machine, which holds the history and the messages made of it at once. -/
structure Held (R N F : Type) extends Cleared R N F where
  inMemory : memoryOf
    (call.history ++ framedMessages call.worker.account.limits call.nonce call.history) < 2 ^ 63

section Reserve

variable {R N F : Type}

def Held.Covers (t : Held R N F) (reqId : UInt64) : Prop :=
  tokensSent (t.request reqId) ≤ t.reserve.toNat

/-- Whether messages are marked. -/
def Call.marking (call : Call R N F) : Bool :=
  call.worker.account.limits.markProvenance && call.nonce ≠ []

def Call.prelude (call : Call R N F) : Text := call.worker.account.limits.prelude.trim

/-- A message of the history as it is sent. -/
def Call.sentAs (call : Call R N F) (message : Message) : Message :=
  if call.marking then framed call.nonce message else message

/-- Nothing goes along with the history that counts. -/
structure Call.Bare (call : Call R N F) : Prop where
  noPrelude : call.prelude = []
  unmarked : call.marking = true → ∀ m ∈ call.history, m.role = "assistant".toList
  weightless : ∀ a ∈ call.attachments, estimateAttachmentTokens a = 0

/-- A message that will be marked holds the nonce. -/
def Call.Repeats (call : Call R N F) : Prop :=
  call.marking = true ∧
    ∃ m ∈ call.history, m.role ≠ "assistant".toList ∧ contains m.content call.nonce = true

/-- The tokens that prelude, markers and attachments add. -/
def Call.added (call : Call R N F) : Nat :=
  tokensOf (preludeMessages call.prelude call.nonce call.marking) +
    (call.history.map fun m => tokensIn (call.sentAs m) - tokensIn m).sum +
    attachmentTokensOf call.attachments

/-- The tokens by which messages get smaller. -/
def Call.saved (call : Call R N F) : Nat :=
  (call.history.map fun m => tokensIn m - tokensIn (call.sentAs m)).sum

end Reserve

/-! ### Estimates -/

theorem divCeil_four_toNat (n : UInt64) : (divCeil n 4).toNat = (n.toNat + 3) / 4 := by
  have hlt := n.toNat_lt
  have hmod : (n % 4).toNat = n.toNat % 4 := rfl
  have hdiv : (n / 4).toNat = n.toNat / 4 := rfl
  unfold divCeil
  by_cases h : n % 4 > 0
  · rw [if_pos h, UInt64.toNat_add, hdiv]
    have hpos : 0 < n.toNat % 4 := hmod ▸ UInt64.lt_iff_toNat_lt.mp h
    show (n.toNat / 4 + 1) % 2 ^ 64 = (n.toNat + 3) / 4
    omega
  · rw [if_neg h, hdiv]
    have hzero : ¬ 0 < n.toNat % 4 := fun hpos => h (UInt64.lt_iff_toNat_lt.mpr (hmod ▸ hpos))
    omega

theorem tokensIn_eq {message : Message} (h : Text.byteLen message.content < 2 ^ 64) :
    tokensIn message = (Text.byteLen message.content + 3) / 4 + 4 := by
  unfold tokensIn estimateTokens
  rw [divCeil_four_toNat, UInt64.toNat_ofNat_of_lt' h]

theorem memoryOf_cons (m : Message) (messages : List Message) :
    memoryOf (m :: messages) = Text.byteLen m.content + 4 + memoryOf messages := by
  simp [memoryOf]

theorem byteLen_lt_of_mem {messages : List Message} (h : memoryOf messages < 2 ^ 64) {m : Message}
    (hm : m ∈ messages) : Text.byteLen m.content < 2 ^ 64 := by
  have hle : Text.byteLen m.content + 4 ≤ memoryOf messages :=
    List.le_sum_of_mem (List.mem_map_of_mem hm)
  omega

theorem tokensOf_cons (m : Message) (messages : List Message) :
    tokensOf (m :: messages) = tokensIn m + tokensOf messages := by
  simp [tokensOf]

theorem tokensOf_append (a b : List Message) : tokensOf (a ++ b) = tokensOf a + tokensOf b := by
  simp [tokensOf]

/-- The estimate of the daemon, which does not wrap. -/
theorem estimatePromptTokens_toNat {messages : List Message} (h : memoryOf messages < 2 ^ 64) :
    (estimatePromptTokens messages).toNat = tokensOf messages ∧
      tokensOf messages ≤ memoryOf messages := by
  induction messages with
  | nil => exact ⟨rfl, Nat.le_refl 0⟩
  | cons m messages ih =>
    have hin := tokensIn_eq (byteLen_lt_of_mem h List.mem_cons_self)
    rw [memoryOf_cons] at h
    obtain ⟨heq, hle⟩ := ih (by omega)
    rw [tokensOf_cons, memoryOf_cons]
    constructor
    · have hsum : estimatePromptTokens (m :: messages) =
          estimateTokens m.content + 4 + estimatePromptTokens messages := List.sum_cons
      have hfour : ((4 : UInt64)).toNat = 4 := rfl
      rw [hsum, UInt64.toNat_add, UInt64.toNat_add, heq, hfour]
      unfold tokensIn at hin ⊢
      omega
    · omega

theorem chargeIdentity_ok {worker : Rate.Worker} {budget : Option (TokenBucket.Bucket ℚ)}
    {buckets : Buckets} {now : ℚ} {n m : UInt64} {refusal : Text}
    (h : (chargeIdentity worker budget buckets now n refusal).result = .ok m) : m = n := by
  unfold chargeIdentity at h
  dsimp only at h
  split at h
  · exact (Except.ok.inj h).symm
  · cases h

/-- What a turn that passes its checks reserves. -/
theorem turnCheck_ok {worker : Rate.Worker} {budget : Option (TokenBucket.Bucket ℚ)}
    {buckets : Buckets} {now : ℚ} {spend : Except Text Unit} {history : List Message}
    {maxTokens : Option UInt32} {effectiveCtx : UInt32} {reserve : UInt64}
    (h : (turnCheck worker budget buckets now spend history maxTokens effectiveCtx).result =
      .ok reserve) :
    reserve = estimatePromptTokens history + (maxTokens.getD 512).toUInt64 := by
  unfold turnCheck at h
  dsimp only at h
  split at h
  · cases h
  · cases spend with
    | error reason => cases h
    | ok =>
      dsimp only at h
      split at h
      · exact chargeIdentity_ok h
      · cases h

/-! ### Marked messages -/

theorem utf8Size_toLower (c : Char) : c.toLower.utf8Size = c.utf8Size := by
  unfold Char.toLower
  split
  · rename_i h
    have hlow : c.utf8Size = 1 := by
      rw [Char.utf8Size_eq_one_iff]
      exact UInt32.le_trans h.2 (by decide)
    rw [hlow, Char.utf8Size_eq_one_iff]
    have hle : c.val.toNat ≤ 90 := UInt32.le_iff_toNat_le.mp h.2
    show c.val + 32 ≤ 127
    rw [UInt32.le_iff_toNat_le, UInt32.toNat_add]
    show (c.val.toNat + 32) % 2 ^ 32 ≤ 127
    omega
  · rfl

theorem byteLen_lower (s : Text) : Text.byteLen (lower s) = Text.byteLen s := by
  induction s with
  | nil => rfl
  | cons c s ih => rw [Provenance.lower_cons, byteLen_cons, byteLen_cons, utf8Size_toLower, ih]

/-- No tag is longer than what is put in its place. -/
theorem byteLen_tags : ∀ name ∈ tagNames, Text.byteLen ('<' :: name) ≤ 16 ∧
    Text.byteLen ('<' :: '/' :: name) ≤ 16 := by
  decide

theorem byteLen_take_tag {tag rest : Text} (h : tag.isPrefixOf (lower rest) = true) :
    Text.byteLen (rest.take tag.length) = Text.byteLen tag := by
  have htake := List.prefix_iff_eq_take.mp (List.isPrefixOf_iff_prefix.mp h)
  have hlower : lower (rest.take tag.length) = tag := (List.map_take ..).trans htake.symm
  rw [← byteLen_lower, hlower]

theorem tagHit_short {name : Text} (hname : name ∈ tagNames) {rest : Text} {len : Nat}
    (h : tagHit name rest = some len) :
    0 < len ∧ Text.byteLen (rest.take len) ≤ 16 := by
  obtain ⟨hopen, hclose⟩ := byteLen_tags name hname
  unfold tagHit at h
  dsimp only at h
  split at h
  · rename_i hprefix
    obtain rfl := Option.some.inj h
    exact ⟨Nat.succ_pos _, (byteLen_take_tag hprefix).trans_le hclose⟩
  · split at h
    · rename_i hprefix
      obtain rfl := Option.some.inj h
      exact ⟨Nat.succ_pos _, (byteLen_take_tag hprefix).trans_le hopen⟩
    · cases h

theorem byteLen_le_stripTag {name : Text} (hname : name ∈ tagNames) (text : Text) :
    Text.byteLen text ≤ Text.byteLen (stripTag text name) := by
  have hrep : Text.byteLen ('[' :: "marker removed".toList ++ [']']) = 16 := by decide
  have hshort : ∀ rest len, tagHit name rest = some len → 0 < len ∧
      Text.byteLen (rest.take len) ≤ Text.byteLen ('[' :: "marker removed".toList ++ [']']) := by
    intro rest len h
    rw [hrep]
    exact tagHit_short hname h
  have hle := weight_le_rewrite Char.utf8Size hshort 0 text
  rw [List.take_zero, List.map_nil, List.sum_nil, Nat.zero_add] at hle
  exact hle

theorem byteLen_le_stripTags {names : List Text} (hnames : ∀ name ∈ names, name ∈ tagNames)
    (text : Text) : Text.byteLen text ≤ Text.byteLen (names.foldl stripTag text) := by
  induction names generalizing text with
  | nil => exact Nat.le_refl _
  | cons name names ih =>
    have hfirst := byteLen_le_stripTag (hnames name List.mem_cons_self) text
    exact hfirst.trans (ih (fun n hn => hnames n (List.mem_cons_of_mem _ hn)) _)

/-- Only a nonce makes a text smaller when it is taken out. -/
theorem byteLen_le_defang {text nonce : Text} (h : contains text nonce = false) :
    Text.byteLen text ≤ Text.byteLen (defang text nonce) := by
  have hnot : ¬ (contains text nonce = true ∧ nonce ≠ []) := by simp [h]
  unfold defang
  rw [if_neg hnot]
  exact byteLen_le_stripTags (fun _ hname => hname) text

theorem byteLen_element (nonce name attributes body : Text) :
    Text.byteLen body + 4 ≤ Text.byteLen (element nonce name attributes body) := by
  have hopen : ('<' : Char).utf8Size = 1 := by decide
  have hquote : ('"' : Char).utf8Size = 1 := by decide
  have hnewline : ('\n' : Char).utf8Size = 1 := by decide
  unfold element
  generalize " nonce=".toList = opening
  simp only [Text.byteLen_append, byteLen_cons, hopen, hquote, hnewline]
  omega

theorem framed_assistant {nonce : Text} {message : Message}
    (h : message.role = "assistant".toList) : framed nonce message = message := by
  have htool : message.role ≠ "tool".toList := by
    rw [h]
    decide
  unfold framed
  rw [if_neg htool, if_pos h]

/-- A marker makes a message longer by more than a token. -/
theorem byteLen_framed {nonce : Text} {message : Message}
    (hrole : message.role ≠ "assistant".toList) (h : contains message.content nonce = false) :
    Text.byteLen message.content + 4 ≤ Text.byteLen (framed nonce message).content := by
  have hbody := Nat.add_le_add_right (byteLen_le_defang h) 4
  unfold framed
  by_cases htool : message.role = "tool".toList
  · rw [if_pos htool]
    exact hbody.trans (byteLen_element ..)
  · rw [if_neg htool, if_neg hrole]
    exact hbody.trans (byteLen_element ..)

/-! ### Requests -/

section Reserve

variable {R N F : Type}

theorem framedMessages_eq (call : Call R N F) :
    framedMessages call.worker.account.limits call.nonce call.history =
      preludeMessages call.prelude call.nonce call.marking ++ call.history.map call.sentAs := by
  unfold framedMessages
  dsimp only
  split
  · rename_i h
    have hmark : call.marking = false := h.2
    have hsame : call.sentAs = id := by
      funext m
      simp [Call.sentAs, hmark]
    have hnone : preludeMessages call.prelude call.nonce call.marking = [] := if_pos h.1
    rw [hnone, hsame, List.map_id]
    rfl
  · rfl

theorem memoryOf_append (a b : List Message) : memoryOf (a ++ b) = memoryOf a + memoryOf b := by
  simp [memoryOf]

theorem Held.history_lt (t : Held R N F) : memoryOf t.call.history < 2 ^ 63 := by
  have hmemory := t.inMemory
  rw [memoryOf_append] at hmemory
  omega

theorem Held.sent_lt (t : Held R N F) :
    memoryOf (preludeMessages t.call.prelude t.call.nonce t.call.marking ++
      t.call.history.map t.call.sentAs) < 2 ^ 63 := by
  have hmemory := t.inMemory
  rw [memoryOf_append, framedMessages_eq] at hmemory
  omega

theorem Held.reserve_toNat (t : Held R N F) :
    t.reserve.toNat = tokensOf t.call.history + (maxTokensOf t.call.params).toNat := by
  have hmemory := t.history_lt
  have hlt : memoryOf t.call.history < 2 ^ 64 := by omega
  obtain ⟨heq, hle⟩ := estimatePromptTokens_toNat hlt
  have hmax := (maxTokensOf t.call.params).toNat_lt
  have hreserve : t.reserve = estimatePromptTokens t.call.history +
      (maxTokensOf t.call.params).toUInt64 := turnCheck_ok t.allowed
  rw [hreserve, UInt64.toNat_add, heq, UInt32.toNat_toUInt64]
  omega

/-- What a map adds to a sum, and what it takes from it. -/
theorem tokensOf_map (messages : List Message) (f : Message → Message) :
    tokensOf (messages.map f) + (messages.map fun m => tokensIn m - tokensIn (f m)).sum =
      tokensOf messages + (messages.map fun m => tokensIn (f m) - tokensIn m).sum := by
  induction messages with
  | nil => rfl
  | cons m messages ih =>
    simp only [List.map_cons, List.sum_cons, tokensOf_cons]
    omega

theorem Held.covers_iff (t : Held R N F) (reqId : UInt64) :
    t.Covers reqId ↔ t.call.added ≤ t.call.saved := by
  have hmap := tokensOf_map t.call.history t.call.sentAs
  have hsent : tokensSent (t.request reqId) =
      tokensOf (preludeMessages t.call.prelude t.call.nonce t.call.marking) +
        tokensOf (t.call.history.map t.call.sentAs) + attachmentTokensOf t.call.attachments +
        (maxTokensOf t.call.params).toNat := by
    rw [← tokensOf_append, ← framedMessages_eq]
    rfl
  unfold Held.Covers
  rw [hsent, t.reserve_toNat]
  unfold Call.added Call.saved
  omega

theorem sentAs_eq {call : Call R N F} {m : Message}
    (h : call.marking = true → m.role = "assistant".toList) : call.sentAs m = m := by
  unfold Call.sentAs
  by_cases hmark : call.marking = true
  · rw [if_pos hmark, framed_assistant (h hmark)]
  · rw [if_neg hmark]

theorem tokensOf_prelude {prelude nonce : Text} {mark : Bool} :
    tokensOf (preludeMessages prelude nonce mark) = 0 ↔ prelude = [] := by
  unfold preludeMessages
  by_cases h : prelude = []
  · rw [if_pos h]
    exact iff_of_true rfl h
  · rw [if_neg h, tokensOf_cons]
    exact iff_of_false (fun hzero => Nat.succ_ne_zero _ (Nat.eq_zero_of_add_eq_zero_right hzero)) h

theorem sum_eq_zero {α : Type} {l : List α} {f : α → Nat} :
    (l.map f).sum = 0 ↔ ∀ a ∈ l, f a = 0 := by
  simp [List.sum_eq_zero_iff]

theorem attachmentTokensOf_eq_zero {attachments : List RawAttachment} :
    attachmentTokensOf attachments = 0 ↔ ∀ a ∈ attachments, estimateAttachmentTokens a = 0 := by
  unfold attachmentTokensOf
  rw [sum_eq_zero]
  constructor
  · intro h a ha
    exact UInt64.toNat_inj.mp (h a ha)
  · intro h a ha
    rw [h a ha]
    rfl

theorem Call.Bare.added_eq {call : Call R N F} (h : call.Bare) : call.added = 0 := by
  have hgrown : (call.history.map fun m => tokensIn (call.sentAs m) - tokensIn m).sum = 0 := by
    rw [sum_eq_zero]
    intro m hm
    rw [sentAs_eq fun hmark => h.unmarked hmark m hm, Nat.sub_self]
  unfold Call.added
  rw [tokensOf_prelude.mpr h.noPrelude, hgrown, attachmentTokensOf_eq_zero.mpr h.weightless]

/-- A marked message takes more tokens than it was estimated at, unless it holds the
    nonce. -/
theorem tokensIn_lt_sentAs (t : Held R N F) {m : Message} (hm : m ∈ t.call.history)
    (hmark : t.call.marking = true) (hrole : m.role ≠ "assistant".toList)
    (hnonce : contains m.content t.call.nonce = false) :
    tokensIn m < tokensIn (t.call.sentAs m) := by
  have hhistory := t.history_lt
  have hsent := t.sent_lt
  have hlong : Text.byteLen m.content + 4 ≤ Text.byteLen (t.call.sentAs m).content := by
    unfold Call.sentAs
    rw [if_pos hmark]
    exact byteLen_framed hrole hnonce
  have hmem : t.call.sentAs m ∈ preludeMessages t.call.prelude t.call.nonce t.call.marking ++
      t.call.history.map t.call.sentAs :=
    List.mem_append_right _ (List.mem_map_of_mem hm)
  rw [tokensIn_eq (byteLen_lt_of_mem (by omega) hm),
    tokensIn_eq (byteLen_lt_of_mem (by omega) hmem)]
  omega

theorem not_contains_of_not_repeats {call : Call R N F} (h : ¬ call.Repeats)
    (hmark : call.marking = true) {m : Message} (hm : m ∈ call.history)
    (hrole : m.role ≠ "assistant".toList) : contains m.content call.nonce = false := by
  rw [Bool.eq_false_iff]
  intro hcontains
  exact h ⟨hmark, m, hm, hrole, hcontains⟩

/-- Nothing gets smaller where no message holds the nonce. -/
theorem Held.saved_eq (t : Held R N F) (h : ¬ t.call.Repeats) : t.call.saved = 0 := by
  unfold Call.saved
  rw [sum_eq_zero]
  intro m hm
  by_cases hplain : t.call.marking = true → m.role = "assistant".toList
  · rw [sentAs_eq hplain, Nat.sub_self]
  · obtain ⟨hmark, hrole⟩ := Classical.not_imp.mp hplain
    have hnonce := not_contains_of_not_repeats h hmark hm hrole
    have hlt := tokensIn_lt_sentAs t hm hmark hrole hnonce
    omega

theorem Held.bare_of_added (t : Held R N F) (hrepeats : ¬ t.call.Repeats)
    (h : t.call.added = 0) : t.call.Bare := by
  unfold Call.added at h
  have hgrown : (t.call.history.map fun m => tokensIn (t.call.sentAs m) - tokensIn m).sum = 0 := by
    omega
  rw [sum_eq_zero] at hgrown
  constructor
  · have hprelude : tokensOf
        (preludeMessages t.call.prelude t.call.nonce t.call.marking) = 0 := by omega
    exact tokensOf_prelude.mp hprelude
  · intro hmark m hm
    by_contra hrole
    have hnonce := not_contains_of_not_repeats hrepeats hmark hm hrole
    have hlt := tokensIn_lt_sentAs t hm hmark hrole hnonce
    have hzero := hgrown m hm
    omega
  · exact attachmentTokensOf_eq_zero.mp (by omega)

/-- The reserve covers the request exactly when nothing goes along with the history, or
    what taking the nonce out of it saves makes up for what does. -/
theorem reserve_covers_iff (t : Held R N F) (reqId : UInt64) :
    t.Covers reqId ↔ t.call.Bare ∨ t.call.Repeats ∧ t.call.added ≤ t.call.saved := by
  rw [t.covers_iff]
  constructor
  · intro hle
    by_cases hrepeats : t.call.Repeats
    · exact Or.inr ⟨hrepeats, hle⟩
    · rw [t.saved_eq hrepeats] at hle
      exact Or.inl (t.bare_of_added hrepeats (Nat.le_zero.mp hle))
  · rintro (hbare | ⟨-, hle⟩)
    · rw [hbare.added_eq]
      exact Nat.zero_le _
    · exact hle

end Reserve

/-- A turn with a picture of one pixel. -/
def seeing : Held ℚ Empty Nat where
  call := plainCall ["vision".toList] [picture 1] 16
  prepared := ⟨⟨"remote".toList, ["generate".toList, "vision".toList], false⟩, none, ⟨1, 4096⟩⟩
  reserve := 22
  prepares := rfl
  allowed := eq_ok_of_toOption (by decide +kernel)
  carries := rfl
  inMemory := by decide +kernel

/-- A picture goes along that was not reserved for. -/
theorem picture_not_reserved :
    ¬ ∀ (t : Held ℚ Empty Nat) (reqId : UInt64), t.Covers reqId := by
  intro hall
  have hbare := hall seeing 1
  revert hbare
  unfold Held.Covers
  decide +kernel

end AiDaemon.WholeTurn
