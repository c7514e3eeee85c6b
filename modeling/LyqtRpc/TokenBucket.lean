import LyqtRpc.Lib.Replies
import Mathlib.Algebra.Order.Ring.Rat
import Mathlib.Tactic.Ring

/-!
`rate_limiter.hpp`: the token bucket of a provider, in exact arithmetic. A clock
reading is taken before the lock, so the readings come in any order.
-/

set_option autoImplicit false

namespace LyqtRpc

open Replies

/-- `rate` in tokens a second. -/
structure TokenBucket where
  rate : ℚ
  burst : ℚ
  tokens : ℚ
  lastRefill : ℚ
  capped : tokens ≤ burst

namespace TokenBucket

def create (rate burst nowSec : ℚ) : TokenBucket where
  rate := rate
  burst := burst
  tokens := burst
  lastRefill := nowSec
  capped := le_refl burst

/-- A reading behind `_last_refill` takes tokens away. -/
def refill (b : TokenBucket) (nowSec : ℚ) : TokenBucket where
  rate := b.rate
  burst := b.burst
  tokens :=
    let tokens := b.tokens + (nowSec - b.lastRefill) * b.rate
    if b.burst < tokens then b.burst else tokens
  lastRefill := nowSec
  capped := by
    dsimp only
    split
    · exact le_refl _
    · exact not_lt.mp (by assumption)

def take (b : TokenBucket) : TokenBucket where
  rate := b.rate
  burst := b.burst
  tokens := b.tokens - 1
  lastRefill := b.lastRefill
  capped := (sub_le_self b.tokens zero_le_one).trans b.capped

def allow (b : TokenBucket) (nowSec : ℚ) : Bool × TokenBucket :=
  let b := b.refill nowSec
  if 1 ≤ b.tokens then (true, b.take) else (false, b)

/-- What the tokens are worth at time 0: waiting does not change it. -/
def stock (b : TokenBucket) : ℚ := b.tokens - b.rate * b.lastRefill

/-- The latest of the readings, and of the last one before them. -/
def latest (lastRefill : ℚ) (readings : List ℚ) : ℚ := readings.foldl max lastRefill

variable {b : TokenBucket} {nowSec : ℚ}

theorem refill_tokens_le : (b.refill nowSec).tokens ≤
    b.tokens + (nowSec - b.lastRefill) * b.rate := by
  simp only [refill]
  split
  · exact le_of_lt (by assumption)
  · exact le_refl _

/-- No refill adds to the stock: the cap only loses tokens. -/
theorem stock_refill_le : (b.refill nowSec).stock ≤ b.stock := by
  have htokens := @refill_tokens_le b nowSec
  show (b.refill nowSec).tokens - b.rate * nowSec ≤ b.tokens - b.rate * b.lastRefill
  calc (b.refill nowSec).tokens - b.rate * nowSec
      ≤ b.tokens + (nowSec - b.lastRefill) * b.rate - b.rate * nowSec :=
        sub_le_sub_right htokens _
    _ = b.tokens - b.rate * b.lastRefill := by ring

theorem stock_take : b.take.stock = b.stock - 1 := by
  simp only [stock, take]
  ring

@[simp] theorem allow_rate : (b.allow nowSec).2.rate = b.rate := by
  unfold allow
  dsimp only
  split <;> rfl

@[simp] theorem allow_burst : (b.allow nowSec).2.burst = b.burst := by
  unfold allow
  dsimp only
  split <;> rfl

@[simp] theorem allow_lastRefill : (b.allow nowSec).2.lastRefill = nowSec := by
  unfold allow
  dsimp only
  split <;> rfl

theorem stock_allow_le : (b.allow nowSec).2.stock +
    (if (b.allow nowSec).1 = true then 1 else 0) ≤ b.stock := by
  have hrefill := @stock_refill_le b nowSec
  unfold allow
  dsimp only
  split
  · rw [stock_take, if_pos rfl, sub_add_cancel]
    exact hrefill
  · simpa using hrefill

/-- An admitted request leaves no debt. -/
theorem allow_tokens_nonneg (h : (b.allow nowSec).1 = true) : 0 ≤ (b.allow nowSec).2.tokens := by
  unfold allow at h ⊢
  dsimp only at h ⊢
  split
  · rename_i hone
    exact sub_nonneg.mpr hone
  · rename_i hnone
    rw [if_neg hnone] at h
    cases h

theorem le_latest {lastRefill : ℚ} {readings : List ℚ} :
    lastRefill ≤ latest lastRefill readings ∧ ∀ t ∈ readings, t ≤ latest lastRefill readings := by
  induction readings generalizing lastRefill with
  | nil => exact ⟨le_refl _, fun t ht => absurd ht List.not_mem_nil⟩
  | cons t readings ih =>
    obtain ⟨hlast, hrest⟩ := @ih (max lastRefill t)
    refine ⟨(le_max_left ..).trans hlast, fun u hu => ?_⟩
    cases hu with
    | head => exact (le_max_right ..).trans hlast
    | tail _ hu => exact hrest u hu

/-- Of a block of calls, in whatever order their readings are applied, at most
what the tokens at hand and the time from the last refill to the latest reading
pay for are admitted. -/
theorem granted_allow_le (hrate : 0 ≤ b.rate) (readings : List ℚ) :
    granted allow b readings = 0 ∨
      (granted allow b readings : ℚ) ≤
        b.tokens + b.rate * (latest b.lastRefill readings - b.lastRefill) := by
  have hfloor : ∀ t ∈ readings, ∀ c : TokenBucket, c.rate = b.rate → (c.allow t).1 = true →
      -(b.rate * latest b.lastRefill readings) ≤ (c.allow t).2.stock := by
    intro t ht c hc hok
    have htokens := allow_tokens_nonneg hok
    have hlate : t ≤ latest b.lastRefill readings := le_latest.2 t ht
    have hlatest := mul_le_mul_of_nonneg_left hlate hrate
    simp only [stock, allow_rate, allow_lastRefill, hc]
    linarith
  refine (granted_le_stock stock (I := fun c : TokenBucket => c.rate = b.rate)
    (fun c t hc => allow_rate.trans hc) (fun c t _ => stock_allow_le) hfloor rfl).imp_right ?_
  intro h
  calc (granted allow b readings : ℚ)
      ≤ b.stock - -(b.rate * latest b.lastRefill readings) := h
    _ = b.tokens + b.rate * (latest b.lastRefill readings - b.lastRefill) := by
        simp only [stock]
        ring

theorem after_allow_spec (rate burst start : ℚ) (before : List ℚ) :
    (after allow (create rate burst start) before).rate = rate ∧
      (after allow (create rate burst start) before).burst = burst :=
  after_invariant (I := fun b : TokenBucket => b.rate = rate ∧ b.burst = burst)
    (fun _ _ hb => ⟨allow_rate.trans hb.1, allow_burst.trans hb.2⟩) before ⟨rfl, rfl⟩

end TokenBucket

open TokenBucket in
/-- Clock readings in any order: a block of calls has at most `burst` requests
admitted, and `rate` a second from its `_last_refill` to its latest reading. -/
theorem rate_limit_bound {rate burst : ℚ} (hrate : 0 ≤ rate) (hburst : 0 ≤ burst) {start : ℚ}
    {before : List ℚ} {b : TokenBucket} (hb : after allow (create rate burst start) before = b)
    (block : List ℚ) :
    (granted allow b block : ℚ) ≤
      burst + rate * (latest b.lastRefill block - b.lastRefill) := by
  subst hb
  obtain ⟨hsameRate, hsameBurst⟩ := after_allow_spec rate burst start before
  generalize after allow (create rate burst start) before = b at hsameRate hsameBurst ⊢
  have hspan : 0 ≤ rate * (latest b.lastRefill block - b.lastRefill) :=
    mul_nonneg hrate (sub_nonneg.mpr le_latest.1)
  have hcap : b.tokens ≤ burst := hsameBurst ▸ b.capped
  cases granted_allow_le (hsameRate.symm ▸ hrate) block with
  | inl hnone =>
    rw [hnone, Nat.cast_zero]
    exact add_nonneg hburst hspan
  | inr hsome =>
    rw [hsameRate] at hsome
    exact hsome.trans (by linarith)

open TokenBucket in
/-- Five tokens a second, two at once: the readings 2, 1, 2 after 0 count the
second second twice, and the bound holds still. -/
theorem rate_limit_bound_reordered :
    granted allow (create 5 2 0) [2, 1, 2] = 2 ∧
    (granted allow (create 5 2 0) [2, 1, 2] : ℚ) ≤
      2 + 5 * (latest (create 5 2 0).lastRefill [2, 1, 2] - (create 5 2 0).lastRefill) :=
  ⟨by decide +kernel,
    rate_limit_bound (by decide) (by decide) (after_nil allow (create 5 2 0)) [2, 1, 2]⟩

end LyqtRpc
