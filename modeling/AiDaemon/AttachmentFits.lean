import AiDaemon.ConfigLoad

/-!
# What fits the wire (`config.rs`: `validate`, `session.rs`: `check_attachment_budget`)

The configuration is checked when it is loaded: at four bytes for a pixel or a sample,
what its limits allow has to fit one frame.  An attachment is checked against these
limits when it comes, and its bytes against its width and its height.

Both checks multiply with saturation.  A product that saturates is above the ceiling,
or above a limit that is below it, so what the checks let through was computed exactly
(`accepted_fits`).
-/

namespace AiDaemon.AttachmentFits

open Attach Checked Fallible Proto Rate Settlement
open Dispatch (maxAttachmentPayload)

/-- An attachment in memory, where no payload has 2⁶³ bytes. -/
structure Attachment where
  raw : RawAttachment
  length_lt : raw.data.length < 2 ^ 63

/-! ### Arithmetic that stops -/

/-- `u64::div_ceil`. -/
def divCeilChecked (n d : Nat) : Run Empty Nat :=
  if d = 0 then .error .panic
  else if n % d > 0 then fits 64 (n / d + 1)
  else .ok (n / d)

/-- `estimate_attachment_tokens`, which stops where a result does not fit 64 bits. -/
def estimateChecked (attachment : RawAttachment) : Run Empty Nat :=
  if attachment.kind = "image".toList then do
    let pixels ← fits 64 ((attachment.w.getD 0).toNat * (attachment.h.getD 0).toNat)
    divCeilChecked pixels 784
  else if attachment.kind = "audio".toList then do
    let frames ← fits 64 (attachment.data.length / 4 * 50)
    divCeilChecked frames (max (attachment.rate.getD 16000).toNat 1)
  else .ok 0

theorem divCeilChecked_eq (n : UInt64) {d : UInt64} (hd : d ≠ 0) :
    divCeilChecked n.toNat d.toNat = .ok (divCeil n d).toNat := by
  have hpos : d.toNat ≠ 0 := fun hzero => hd (UInt64.toNat_inj.1 hzero)
  rw [divCeilChecked, if_neg hpos, divCeil]
  have hmod : n % d > 0 ↔ n.toNat % d.toNat > 0 := by
    rw [gt_iff_lt, UInt64.lt_iff_toNat_lt, UInt64.toNat_mod]
    rfl
  by_cases hrest : n.toNat % d.toNat > 0
  · -- a divisor that leaves a rest is not one, and the quotient is at most a half
    have htwo : 2 ≤ d.toNat := by
      by_contra hone
      have hone : d.toNat = 1 := by omega
      rw [hone, Nat.mod_one] at hrest
      exact Nat.lt_irrefl 0 hrest
    have hhalf : n.toNat / d.toNat ≤ n.toNat / 2 := Nat.div_le_div_left htwo (by decide)
    have hlt := n.toNat_lt
    have hfits : n.toNat / d.toNat + 1 < 2 ^ 64 := by omega
    rw [if_pos hrest, if_pos (hmod.2 hrest), fits_eq hfits, UInt64.toNat_add, UInt64.toNat_div]
    exact congrArg _ (Nat.mod_eq_of_lt hfits).symm
  · rw [if_neg hrest, if_neg (mt hmod.1 hrest), UInt64.toNat_div]

/-! ### Products -/

/-- The product is what it is over the naturals. -/
def Exact (a b : UInt64) : Prop := (saturatingMul a b).toNat = a.toNat * b.toNat

theorem toNat_saturatingMul (a b : UInt64) :
    (saturatingMul a b).toNat = min (a.toNat * b.toNat) (2 ^ 64 - 1) := by
  rw [saturatingMul, UInt64.toNat_ofNat']
  omega

theorem exact_iff {a b : UInt64} : Exact a b ↔ a.toNat * b.toNat < 2 ^ 64 := by
  rw [Exact, toNat_saturatingMul]
  omega

/-- A product that is not above a limit did not saturate, unless the limit is the largest. -/
theorem exact_of_le {a b limit : UInt64} (h : saturatingMul a b ≤ limit)
    (hlimit : limit.toNat < 2 ^ 64 - 1) : Exact a b := by
  rw [UInt64.le_iff_toNat_le, toNat_saturatingMul] at h
  rw [exact_iff]
  omega

/-- Two numbers of 32 bits. -/
theorem exact_sides (w h : UInt32) : Exact w.toUInt64 h.toUInt64 := by
  rw [exact_iff, UInt32.toNat_toUInt64, UInt32.toNat_toUInt64]
  calc w.toNat * h.toNat < 2 ^ 32 * 2 ^ 32 := Nat.mul_lt_mul'' w.toNat_lt h.toNat_lt
    _ = 2 ^ 64 := by decide

/-- Fifty frames for each second of a clip that is not too long. -/
theorem toNat_frames {length : Nat} (h : length < 2 ^ 60) :
    (UInt64.ofNat length / 4 * 50).toNat = length / 4 * 50 := by
  have hsize : length < UInt64.size := lt_trans h (by decide)
  have hsamples : (UInt64.ofNat length / 4).toNat = length / 4 := by
    rw [UInt64.toNat_div, UInt64.toNat_ofNat_of_lt' hsize]
    rfl
  rw [UInt64.toNat_mul, hsamples]
  show length / 4 * 50 % 2 ^ 64 = length / 4 * 50
  omega

theorem toNat_rate (rate : UInt32) : (max rate 1).toUInt64.toNat = max rate.toNat 1 := by
  rw [UInt32.toNat_toUInt64, UInt32.toNat_max]
  rfl

theorem rate_ne_zero (rate : UInt32) : (max rate 1).toUInt64 ≠ 0 := by
  intro hzero
  have hrate := toNat_rate rate
  rw [hzero] at hrate
  have hone := Nat.le_max_right rate.toNat 1
  rw [← hrate] at hone
  cases hone

/-- Below this length no step of the estimate leaves 64 bits. -/
theorem estimateChecked_eq {raw : RawAttachment} (h : raw.data.length < 2 ^ 60) :
    estimateChecked raw = .ok (estimateAttachmentTokens raw).toNat := by
  unfold estimateChecked estimateAttachmentTokens
  by_cases himage : raw.kind = "image".toList
  · rw [if_pos himage, if_pos himage]
    have hexact := exact_sides (raw.w.getD 0) (raw.h.getD 0)
    have hproduct := exact_iff.1 hexact
    rw [Exact, UInt32.toNat_toUInt64, UInt32.toNat_toUInt64] at hexact
    rw [UInt32.toNat_toUInt64, UInt32.toNat_toUInt64] at hproduct
    rw [fits_eq hproduct, bind_ok, ← hexact]
    exact divCeilChecked_eq _ (show (784 : UInt64) ≠ 0 by decide)
  · rw [if_neg himage, if_neg himage]
    by_cases haudio : raw.kind = "audio".toList
    · rw [if_pos haudio, if_pos haudio, fits_eq (by omega), bind_ok, ← toNat_frames h,
        ← toNat_rate]
      exact divCeilChecked_eq _ (rate_ne_zero _)
    · rw [if_neg haudio, if_neg haudio]
      rfl

/-! ### What the two checks let through -/

/-- The bytes of a pixel in a format that is accepted. -/
def pixelSize (fmt : Option Text) : Nat := if fmt = some "rgb8".toList then 3 else 4

section Accepted

variable {isEscaped : Char → Bool} {budget : AttachmentBudget} {raw : RawAttachment}

theorem toNat_ceiling : (UInt64.ofNat maxAttachmentPayload).toNat = maxAttachmentPayload := by
  decide

theorem validate_budget (h : Capacity.validate budget = .ok ()) :
    saturatingMul budget.maxPixels 4 ≤ .ofNat maxAttachmentPayload ∧
      saturatingMul budget.maxSamples 4 ≤ .ofNat maxAttachmentPayload := by
  unfold Capacity.validate at h
  dsimp only at h
  split at h
  · cases h
  · rename_i hpixels
    split at h
    · cases h
    · rename_i hsamples
      exact ⟨UInt64.not_lt.1 hpixels, UInt64.not_lt.1 hsamples⟩

/-- A limit of the budget is a quarter of the ceiling at most. -/
theorem limit_le {limit : UInt64} (h : saturatingMul limit 4 ≤ .ofNat maxAttachmentPayload) :
    Exact limit 4 ∧ limit.toNat * 4 ≤ maxAttachmentPayload := by
  have hexact : Exact limit 4 := exact_of_le h (by decide)
  rw [UInt64.le_iff_toNat_le, toNat_ceiling, hexact] at h
  exact ⟨hexact, h⟩

theorem toNat_bytesPerPixel {fmt : Option Text} {perPixel : UInt64}
    (h : bytesPerPixel isEscaped fmt = .ok perPixel) : perPixel.toNat = pixelSize fmt := by
  cases fmt with
  | none =>
    cases h
    rfl
  | some fmt =>
    rw [bytesPerPixel] at h
    by_cases hrgb : fmt = "rgb8".toList
    · rw [if_pos hrgb] at h
      cases h
      rw [pixelSize, if_pos (congrArg some hrgb)]
      rfl
    · rw [if_neg hrgb] at h
      split at h
      · cases h
        rw [pixelSize, if_neg fun hsome => hrgb (Option.some.inj hsome)]
        rfl
      · cases h

theorem pixelSize_le (fmt : Option Text) : pixelSize fmt ≤ 4 := by
  rw [pixelSize]
  split
  · decide
  · exact Nat.le_refl 4

theorem checkImage_eq_ok (h : checkImage isEscaped budget raw = .ok ()) :
    saturatingMul (raw.w.getD 0).toUInt64 (raw.h.getD 0).toUInt64 ≤ budget.maxPixels ∧
      ∃ perPixel, bytesPerPixel isEscaped raw.fmt = .ok perPixel ∧
        .ofNat raw.data.length =
          saturatingMul (saturatingMul (raw.w.getD 0).toUInt64 (raw.h.getD 0).toUInt64)
            perPixel := by
  unfold checkImage at h
  dsimp only at h
  split at h
  · cases h
  · split at h
    · cases h
    · rename_i hpixels
      split at h
      · cases h
      · rename_i perPixel hformat
        split at h
        · cases h
        · rename_i hsize
          exact ⟨UInt64.not_lt.1 hpixels, perPixel, hformat, not_not.1 hsize⟩

theorem checkAudio_eq_ok (h : checkAudio budget raw = .ok ()) :
    .ofNat raw.data.length / 4 ≤ budget.maxSamples ∧ 4 ∣ raw.data.length := by
  unfold checkAudio at h
  dsimp only at h
  split at h
  · cases h
  · split at h
    · cases h
    · rename_i hsamples
      split at h
      · cases h
      · rename_i hwhole
        exact ⟨UInt64.not_lt.1 hsamples, Nat.dvd_of_mod_eq_zero (not_not.1 hwhole)⟩

/-- The pixels are at most the limit, and a pixel at most four bytes. -/
theorem image_exact (hlimit : budget.maxPixels.toNat * 4 ≤ maxAttachmentPayload)
    (h : checkImage isEscaped budget raw = .ok ()) {perPixel : UInt64}
    (hformat : bytesPerPixel isEscaped raw.fmt = .ok perPixel) :
    Exact (saturatingMul (raw.w.getD 0).toUInt64 (raw.h.getD 0).toUInt64) perPixel ∧
      (raw.w.getD 0).toNat * (raw.h.getD 0).toNat * pixelSize raw.fmt ≤ maxAttachmentPayload := by
  obtain ⟨hpixels, -⟩ := checkImage_eq_ok h
  have hsides := exact_sides (raw.w.getD 0) (raw.h.getD 0)
  rw [UInt64.le_iff_toNat_le] at hpixels
  have hbytes : (saturatingMul (raw.w.getD 0).toUInt64 (raw.h.getD 0).toUInt64).toNat *
      pixelSize raw.fmt ≤ maxAttachmentPayload :=
    calc _ ≤ budget.maxPixels.toNat * 4 := Nat.mul_le_mul hpixels (pixelSize_le _)
      _ ≤ maxAttachmentPayload := hlimit
  constructor
  · rw [exact_iff, toNat_bytesPerPixel hformat]
    exact lt_of_le_of_lt hbytes (by decide)
  · rwa [hsides, UInt32.toNat_toUInt64, UInt32.toNat_toUInt64] at hbytes

theorem image_size {a : Attachment}
    (hlimit : budget.maxPixels.toNat * 4 ≤ maxAttachmentPayload)
    (h : checkImage isEscaped budget a.raw = .ok ()) :
    a.raw.data.length =
      (a.raw.w.getD 0).toNat * (a.raw.h.getD 0).toNat * pixelSize a.raw.fmt := by
  obtain ⟨-, perPixel, hformat, hsize⟩ := checkImage_eq_ok h
  have hlength : a.raw.data.length < UInt64.size := lt_trans a.length_lt (by decide)
  have hexact := (image_exact hlimit h hformat).1
  have hsides := exact_sides (a.raw.w.getD 0) (a.raw.h.getD 0)
  calc a.raw.data.length = (UInt64.ofNat a.raw.data.length).toNat :=
        (UInt64.toNat_ofNat_of_lt' hlength).symm
    _ = _ := by
      rw [hsize, hexact, hsides, toNat_bytesPerPixel hformat, UInt32.toNat_toUInt64,
        UInt32.toNat_toUInt64]

theorem audio_size {a : Attachment}
    (hlimit : budget.maxSamples.toNat * 4 ≤ maxAttachmentPayload)
    (h : checkAudio budget a.raw = .ok ()) :
    4 ∣ a.raw.data.length ∧ a.raw.data.length ≤ maxAttachmentPayload := by
  obtain ⟨hsamples, hwhole⟩ := checkAudio_eq_ok h
  have hlength : a.raw.data.length < UInt64.size := lt_trans a.length_lt (by decide)
  refine ⟨hwhole, ?_⟩
  rw [UInt64.le_iff_toNat_le, UInt64.toNat_div, UInt64.toNat_ofNat_of_lt' hlength] at hsamples
  calc a.raw.data.length = a.raw.data.length / 4 * 4 := (Nat.div_mul_cancel hwhole).symm
    _ ≤ budget.maxSamples.toNat * 4 := Nat.mul_le_mul_right 4 hsamples
    _ ≤ maxAttachmentPayload := hlimit

end Accepted

/-- An attachment has the bytes it is said to have and fits one frame, and nothing that is
    computed on the way is more than 64 bits hold. -/
structure Fits (isEscaped : Char → Bool) (budget : AttachmentBudget) (kind : AttachKind)
    (raw : RawAttachment) : Prop where
  size : match kind with
    | .image => raw.data.length = (raw.w.getD 0).toNat * (raw.h.getD 0).toNat * pixelSize raw.fmt
    | .audio => 4 ∣ raw.data.length
  payload : raw.data.length ≤ maxAttachmentPayload
  limits : Exact budget.maxPixels 4 ∧ Exact budget.maxSamples 4
  products : Exact (raw.w.getD 0).toUInt64 (raw.h.getD 0).toUInt64 ∧
    (kind = .image → ∃ perPixel, bytesPerPixel isEscaped raw.fmt = .ok perPixel ∧
      Exact (saturatingMul (raw.w.getD 0).toUInt64 (raw.h.getD 0).toUInt64) perPixel)
  estimate : estimateChecked raw = .ok (estimateAttachmentTokens raw).toNat

/-- **What is accepted fits the wire**, under every configuration that can be loaded. -/
theorem accepted_fits {Daemon R : Type} (isEscaped : Char → Bool)
    (config : ConfigLoad.Config Daemon R)
    (hvalid : ConfigLoad.validate isEscaped config = .ok ()) (kind : AttachKind) (a : Attachment)
    (haccepted : checkAttachmentBudget isEscaped (config.table .attachments) kind a.raw = .ok ()) :
    Fits isEscaped (config.table .attachments) kind a.raw := by
  obtain ⟨-, -, hbudget⟩ := bind_eq_ok.mp hvalid
  obtain ⟨hpixels, hsamples⟩ := validate_budget hbudget
  obtain ⟨hwidest, hpixels⟩ := limit_le hpixels
  obtain ⟨hlongest, hsamples⟩ := limit_le hsamples
  have hsides := exact_sides (a.raw.w.getD 0) (a.raw.h.getD 0)
  cases kind with
  | image =>
    obtain ⟨-, perPixel, hformat, -⟩ := checkImage_eq_ok haccepted
    obtain ⟨hexact, hbytes⟩ := image_exact hpixels haccepted hformat
    have hsize := image_size hpixels haccepted
    have hpayload : a.raw.data.length ≤ maxAttachmentPayload := hsize ▸ hbytes
    exact ⟨hsize, hpayload, ⟨hwidest, hlongest⟩, ⟨hsides, fun _ => ⟨perPixel, hformat, hexact⟩⟩,
      estimateChecked_eq (lt_of_le_of_lt hpayload (by decide))⟩
  | audio =>
    obtain ⟨hsize, hpayload⟩ := audio_size hsamples haccepted
    exact ⟨hsize, hpayload, ⟨hwidest, hlongest⟩, ⟨hsides, nofun⟩,
      estimateChecked_eq (lt_of_le_of_lt hpayload (by decide))⟩

/-- Two pixels of three bytes. -/
def twoPixels : Attachment where
  raw :=
    { id := "a".toList, kind := "image".toList, w := some 2, h := some 1,
      fmt := some "rgb8".toList, rate := none, data := [0, 0, 0, 255, 255, 255] }
  length_lt := by decide

theorem twoPixels_fits :
    Fits (fun _ => false) (ConfigLoad.turnedOff.table .attachments) .image twoPixels.raw :=
  accepted_fits (fun _ => false) ConfigLoad.turnedOff rfl .image twoPixels rfl

end AiDaemon.AttachmentFits
