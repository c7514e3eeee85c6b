import LyqtRpc.TokenBucket
import LyqtRpc.Lib.JsonValue

/-!
`TokenBucket::retryAfterMs`: how long a rejected caller is told to wait. The hint is
computed from the rate alone.
-/

set_option autoImplicit false

namespace LyqtRpc

open Replies

namespace TokenBucket

/-- `none` for a rate of zero: the quotient is infinite, and its cast undefined. -/
def retryAfterMs (b : TokenBucket) : Option Int :=
  if b.rate = 0 then none else some ((Double.finite (1000 / b.rate)).truncate + 1)

/-- `RpcServer::setRateLimiter` takes any two numbers. -/
def setRateLimiter (ratePerSec burst : Int32) (nowSec : ℚ) : TokenBucket :=
  create ratePerSec.toInt burst.toInt nowSec

/-- A call rejected at `t` is told a wait of some milliseconds, after which it is let in. -/
def HintSuffices (b : TokenBucket) (t : ℚ) : Prop :=
  ∃ ms : Int, (b.allow t).2.retryAfterMs = some ms ∧ 0 < ms ∧
    ∀ later : ℚ, t + ms / 1000 ≤ later → ((b.allow t).2.allow later).1 = true

/-- What the bucket would hold at `t` if it had no cap: below zero, it owes tokens. -/
def level (b : TokenBucket) (t : ℚ) : ℚ := b.tokens + (t - b.lastRefill) * b.rate

/-- One token fits the bucket, and comes within the wait. -/
structure HintReaches (b : TokenBucket) (t : ℚ) : Prop where
  rate_pos : 0 < b.rate
  one_le_burst : 1 ≤ b.burst
  deficit : 1 - b.level t ≤ (⌊1000 / b.rate⌋ + 1) / 1000 * b.rate

end TokenBucket

open TokenBucket

theorem truncate_of_nonneg {q : ℚ} (h : 0 ≤ q) : (Double.finite q).truncate = ⌊q⌋ :=
  if_neg (not_lt.mpr h)

namespace TokenBucket

variable {b : TokenBucket} {t : ℚ}

theorem refill_tokens : (b.refill t).tokens = min b.burst (b.level t) := by
  simp only [refill, level]
  split
  · rename_i hover
    exact (min_eq_left hover.le).symm
  · rename_i hunder
    exact (min_eq_right (not_lt.mp hunder)).symm

/-- A call is let in where the bucket can hold a token and has one. -/
theorem allow_iff : (b.allow t).1 = true ↔ 1 ≤ b.burst ∧ 1 ≤ b.level t := by
  rw [← le_min_iff, ← refill_tokens]
  unfold allow
  dsimp only
  split
  · rename_i hone
    exact iff_of_true rfl hone
  · rename_i hnone
    exact iff_of_false Bool.false_ne_true hnone

theorem allow_rejected (h : (b.allow t).1 = false) : (b.allow t).2 = b.refill t := by
  unfold allow at h ⊢
  dsimp only at h ⊢
  split
  · rename_i hone
    rw [if_pos hone] at h
    cases h
  · rfl

theorem rejected_lt (h : (b.allow t).1 = false) (hburst : 1 ≤ b.burst) : b.level t < 1 := by
  by_contra hmany
  rw [allow_iff.mpr ⟨hburst, not_lt.mp hmany⟩] at h
  cases h

/-- What a rejected call leaves, where the bucket can hold a token. -/
theorem rejected_tokens (h : (b.allow t).1 = false) (hburst : 1 ≤ b.burst) :
    (b.allow t).2.tokens = b.level t := by
  rw [allow_rejected h, refill_tokens]
  exact min_eq_right ((rejected_lt h hburst).le.trans hburst)

/-- The call after the wait. -/
theorem allow_later (h : (b.allow t).1 = false) {later : ℚ} :
    ((b.allow t).2.allow later).1 = true ↔
      1 ≤ b.burst ∧ 1 ≤ b.level t + (later - t) * b.rate := by
  rw [allow_iff, level, allow_burst, allow_lastRefill, allow_rate]
  refine and_congr_right fun hburst => ?_
  rw [rejected_tokens h hburst]

theorem retryAfterMs_of_pos (h : 0 < b.rate) :
    b.retryAfterMs = some (⌊1000 / b.rate⌋ + 1) := by
  rw [retryAfterMs, if_neg h.ne', truncate_of_nonneg (div_pos (by norm_num) h).le]

/-- The hint suffices at a rejected call exactly when it outlasts the deficit. -/
theorem hintSuffices_iff (h : (b.allow t).1 = false) : HintSuffices b t ↔ HintReaches b t := by
  constructor
  · rintro ⟨ms, hms, hpos, hlater⟩
    obtain ⟨hburst, htokens⟩ := (allow_later h).mp (hlater _ (le_refl _))
    have hfew := rejected_lt h hburst
    have hms_pos : (0 : ℚ) < ms / 1000 := by positivity
    have hgain : 0 < ms / 1000 * b.rate := by linarith
    have hrate : 0 < b.rate := (pos_iff_pos_of_mul_pos hgain).mp hms_pos
    rw [retryAfterMs_of_pos (by rwa [allow_rate]), allow_rate, Option.some.injEq] at hms
    subst hms
    refine ⟨hrate, hburst, ?_⟩
    push_cast at htokens ⊢
    linarith
  · rintro ⟨hrate, hburst, hdeficit⟩
    have hquot : (0 : ℤ) ≤ ⌊1000 / b.rate⌋ := Int.floor_nonneg.mpr (by positivity)
    refine ⟨_, retryAfterMs_of_pos (by rwa [allow_rate]), by rw [allow_rate]; omega, ?_⟩
    intro later hlater
    rw [allow_rate] at hlater
    push_cast at hlater
    have hwait := mul_le_mul_of_nonneg_right (le_sub_iff_add_le'.mpr hlater) hrate.le
    refine (allow_later h).mpr ⟨hburst, ?_⟩
    linarith

/-- The wait is longer than one token takes. -/
theorem one_lt_wait {rate : ℚ} (hrate : 0 < rate) : 1 < (⌊1000 / rate⌋ + 1) / 1000 * rate := by
  have hwhole : 1000 < (⌊1000 / rate⌋ + 1) * rate :=
    (div_lt_iff₀ hrate).mp (Int.lt_floor_add_one _)
  linarith

/-- It is longer by a millisecond at most. -/
theorem wait_le {rate : ℚ} (hrate : 0 < rate) :
    (⌊1000 / rate⌋ + 1) / 1000 * rate ≤ 1 + rate / 1000 := by
  have hwhole : ⌊1000 / rate⌋ * rate ≤ 1000 := (le_div_iff₀ hrate).mp (Int.floor_le _)
  linarith

/-- A bucket that can hold a token and owes none has hints that suffice. -/
theorem hintSuffices_of_level (h : (b.allow t).1 = false) (hrate : 0 < b.rate)
    (hburst : 1 ≤ b.burst) (hlevel : 0 ≤ b.level t) : HintSuffices b t := by
  refine (hintSuffices_iff h).mpr ⟨hrate, hburst, ?_⟩
  have hwait := one_lt_wait hrate
  linarith

/-- A hint that suffices is given by such a bucket, or by one that owes less than a
millisecond brings. -/
theorem level_of_hintSuffices (h : (b.allow t).1 = false) (hok : HintSuffices b t) :
    0 < b.rate ∧ 1 ≤ b.burst ∧ -(b.rate / 1000) ≤ b.level t := by
  obtain ⟨hrate, hburst, hdeficit⟩ := (hintSuffices_iff h).mp hok
  have hwait := wait_le hrate
  exact ⟨hrate, hburst, by linarith⟩

/-! Readings in order. -/

/-- No tokens are owed, and the last refill was not after `t`. -/
def InOrder (b : TokenBucket) (t : ℚ) : Prop :=
  0 ≤ b.tokens ∧ b.lastRefill ≤ t

theorem InOrder.level_nonneg (h : InOrder b t) (hrate : 0 ≤ b.rate) : 0 ≤ b.level t :=
  add_nonneg h.1 (mul_nonneg (sub_nonneg.mpr h.2) hrate)

theorem InOrder.allow_tokens (h : InOrder b t) (hrate : 0 ≤ b.rate) (hburst : 0 ≤ b.burst) :
    0 ≤ (b.allow t).2.tokens := by
  cases hok : (b.allow t).1 with
  | true => exact allow_tokens_nonneg hok
  | false =>
    rw [allow_rejected hok, refill_tokens]
    exact le_min hburst (h.level_nonneg hrate)

theorem inOrder_after {readings : List ℚ} (hrate : 0 ≤ b.rate) (hburst : 0 ≤ b.burst)
    (htokens : 0 ≤ b.tokens)
    (hsorted : (b.lastRefill :: (readings ++ [t])).Pairwise (· ≤ ·)) :
    InOrder (after allow b readings) t := by
  induction readings generalizing b with
  | nil => exact ⟨htokens, by simpa using hsorted⟩
  | cons r readings ih =>
    obtain ⟨hfirst, hrest⟩ := List.pairwise_cons.mp hsorted
    have hr : InOrder b r := ⟨htokens, hfirst r (List.mem_cons_self ..)⟩
    refine ih ?_ ?_ (hr.allow_tokens hrate hburst) ?_
    · rwa [allow_rate]
    · rwa [allow_burst]
    · rwa [allow_lastRefill]

/-- As long as the readings are applied in their order, no tokens are owed. -/
theorem level_nonneg_of_sorted {rate burst start : ℚ} (hrate : 0 ≤ rate) (hburst : 0 ≤ burst)
    {before : List ℚ} (hsorted : (start :: (before ++ [t])).Pairwise (· ≤ ·)) :
    0 ≤ (after allow (create rate burst start) before).level t := by
  have hinOrder : InOrder (after allow (create rate burst start) before) t :=
    inOrder_after hrate hburst hburst hsorted
  refine hinOrder.level_nonneg ?_
  rwa [(after_allow_spec rate burst start before).1]

end TokenBucket

/-- Every configuration, every order of the readings before, every rejected call: where the
bucket is refilled, can hold a token and owes none at the call, the hint suffices; and only
there, up to a debt that a millisecond repays. -/
theorem retry_hint_suffices (ratePerSec burst : Int32) (start : ℚ) (before : List ℚ)
    {b : TokenBucket} (hb : after allow (setRateLimiter ratePerSec burst start) before = b)
    {t : ℚ} (hrejected : (b.allow t).1 = false) :
    (0 < ratePerSec.toInt ∧ 1 ≤ burst.toInt ∧ 0 ≤ b.level t → HintSuffices b t) ∧
      (HintSuffices b t → 0 < ratePerSec.toInt ∧ 1 ≤ burst.toInt ∧
        -(ratePerSec.toInt / 1000 : ℚ) ≤ b.level t) := by
  obtain ⟨hrate, hburst⟩ :=
    after_allow_spec (ratePerSec.toInt : ℚ) (burst.toInt : ℚ) start before
  have hb : after allow (create ratePerSec.toInt burst.toInt start) before = b := hb
  rw [hb] at hrate hburst
  constructor
  · rintro ⟨hpos, hone, hlevel⟩
    refine hintSuffices_of_level hrejected ?_ ?_ hlevel
    · rw [hrate]
      exact_mod_cast hpos
    · rw [hburst]
      exact_mod_cast hone
  · intro hok
    obtain ⟨hpos, hone, hlevel⟩ := level_of_hintSuffices hrejected hok
    rw [hrate] at hpos hlevel
    rw [hburst] at hone
    exact ⟨by exact_mod_cast hpos, by exact_mod_cast hone, hlevel⟩

/-- Two a second, and one at once, the readings in order: what is left of a token after the
first call comes within half a second. -/
theorem retry_hint_suffices_twoPerSec :
    HintSuffices (after allow (setRateLimiter 2 1 0) [0]) (1 / 4) :=
  (retry_hint_suffices 2 1 0 [0] rfl (by decide +kernel)).1
    ⟨by decide, by decide,
      level_nonneg_of_sorted (by decide +kernel) (by decide +kernel) (by decide +kernel)⟩

/-- A negative rate is taken, and hints at a negative wait. -/
theorem retry_hint_negative :
    ¬ ∀ (ratePerSec burst : Int32) (start : ℚ) (before : List ℚ) (t : ℚ),
      ((after allow (setRateLimiter ratePerSec burst start) before).allow t).1 = false →
      HintSuffices (after allow (setRateLimiter ratePerSec burst start) before) t := by
  intro h
  obtain ⟨ms, hms, hpos, -⟩ := h (-5) 1 0 [0] 0 (by decide +kernel)
  have hhint : ((after allow (setRateLimiter (-5) 1 0) [0]).allow 0).2.retryAfterMs =
      some (-199) := by decide +kernel
  rw [hhint, Option.some.injEq] at hms
  omega

end LyqtRpc
