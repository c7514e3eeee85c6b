import LyqtRpc.RetryLoop
import Mathlib.Algebra.Order.Ring.Int

/-!
`backoffDelayMs`: the interval the delay is drawn from, in `int64_t`, and what
the retry loop can ask of it.
-/

set_option autoImplicit false

namespace LyqtRpc

def InInt64 (x : Int) : Prop := -2 ^ 63 ≤ x ∧ x < 2 ^ 63

instance (x : Int) : Decidable (InInt64 x) := inferInstanceAs (Decidable (_ ∧ _))

/-- `int64_t{1} << attempt`; `none`: the count is not below the width. -/
def shiftOne (attempt : Nat) : Option Int :=
  if attempt < 63 then some (2 ^ attempt)
  -- C++20: the bit becomes the sign
  else if attempt = 63 then some (-2 ^ 63)
  else none

/-- `none`: the product overflows. -/
def mulInt64 (a b : Int) : Option Int := if InInt64 (a * b) then some (a * b) else none

/-- The upper end of the interval of `backoffDelayMs`. -/
def backoffBound (cfg : RetryConfig) (attempt : Nat) : Option Int := do
  let product ← mulInt64 cfg.baseMs.toInt (← shiftOne attempt)
  let exp := min product cfg.maxMs.toInt
  pure (if exp ≤ 0 then 1 else exp)

/-- The same over the integers. -/
def idealBound (cfg : RetryConfig) (attempt : Nat) : Int :=
  max 1 (min cfg.maxMs.toInt (cfg.baseMs.toInt * 2 ^ attempt))

/-- The loop sleeps after this attempt, if it fails. -/
def Slept (cfg : RetryConfig) (attempt : Nat) : Prop := (attempt : Int) < cfg.maxRetries.toInt

/-- Neither the shift nor the product overflows, the bound is the one meant, and
it does not go down from one attempt to a later one. -/
structure BackoffLaw (cfg : RetryConfig) : Prop where
  shift : ∀ attempt, Slept cfg attempt → shiftOne attempt = some (2 ^ attempt)
  product : ∀ attempt, Slept cfg attempt → InInt64 (cfg.baseMs.toInt * 2 ^ attempt)
  bound : ∀ attempt, Slept cfg attempt →
    backoffBound cfg attempt = some (idealBound cfg attempt)
  grows : ∀ attempt later, Slept cfg later → attempt ≤ later →
    ∀ b c, backoffBound cfg attempt = some b → backoffBound cfg later = some c → b ≤ c

/-- The exponent and the product of the last sleep fit. -/
def BackoffFits (cfg : RetryConfig) : Prop :=
  0 < cfg.maxRetries.toInt → cfg.maxRetries.toInt ≤ 63 ∧
    cfg.baseMs.toInt * 2 ^ (cfg.maxRetries.toInt.toNat - 1) < 2 ^ 63

section Bound
variable {cfg : RetryConfig} {attempt later : Nat}

theorem shiftOne_eq_iff : shiftOne attempt = some (2 ^ attempt) ↔ attempt < 63 := by
  unfold shiftOne
  split
  · simpa
  · rename_i hwide
    split
    · rename_i hlast
      subst hlast
      decide
    · simpa using hwide

theorem product_mono (hbase : 0 ≤ cfg.baseMs.toInt) (h : attempt ≤ later) :
    cfg.baseMs.toInt * 2 ^ attempt ≤ cfg.baseMs.toInt * 2 ^ later :=
  Int.mul_le_mul_of_nonneg_left (pow_le_pow_right₀ (by decide) h) hbase

theorem inInt64_product_iff (hbase : 0 ≤ cfg.baseMs.toInt) :
    InInt64 (cfg.baseMs.toInt * 2 ^ attempt) ↔ cfg.baseMs.toInt * 2 ^ attempt < 2 ^ 63 := by
  have hnonneg : 0 ≤ cfg.baseMs.toInt * 2 ^ attempt :=
    Int.mul_nonneg hbase (pow_nonneg (by decide) attempt)
  unfold InInt64
  omega

/-- Where nothing overflows, the repair of a bound of 0 is the maximum with 1. -/
theorem backoffBound_eq (hshift : attempt < 63)
    (hproduct : InInt64 (cfg.baseMs.toInt * 2 ^ attempt)) :
    backoffBound cfg attempt = some (idealBound cfg attempt) := by
  rw [backoffBound, shiftOne_eq_iff.mpr hshift]
  simp only [Option.bind_eq_bind, Option.bind_some, mulInt64, if_pos hproduct, Option.pure_def,
    Option.some.injEq, idealBound]
  split
  · omega
  · omega

theorem idealBound_mono (hbase : 0 ≤ cfg.baseMs.toInt) (h : attempt ≤ later) :
    idealBound cfg attempt ≤ idealBound cfg later := by
  have hproduct := product_mono hbase h
  unfold idealBound
  omega

end Bound

/-- The bound is the one meant at every attempt the loop sleeps after, if and
only if at most 63 retries are configured and the last product is an `int64_t`. -/
theorem backoff_bound_iff {cfg : RetryConfig} (hbase : 0 ≤ cfg.baseMs.toInt) :
    BackoffLaw cfg ↔ BackoffFits cfg := by
  constructor
  · intro h hretries
    have hlast : Slept cfg (cfg.maxRetries.toInt.toNat - 1) := by
      unfold Slept
      omega
    have hshift := shiftOne_eq_iff.mp (h.shift _ hlast)
    exact ⟨by omega, (inInt64_product_iff hbase).mp (h.product _ hlast)⟩
  · intro h
    have hfits : ∀ attempt, Slept cfg attempt →
        attempt < 63 ∧ InInt64 (cfg.baseMs.toInt * 2 ^ attempt) := by
      intro attempt hslept
      unfold Slept at hslept
      obtain ⟨hcount, hproduct⟩ := h (by omega)
      have hle : cfg.baseMs.toInt * 2 ^ attempt ≤
          cfg.baseMs.toInt * 2 ^ (cfg.maxRetries.toInt.toNat - 1) :=
        product_mono hbase (by omega)
      exact ⟨by omega, (inInt64_product_iff hbase).mpr (by omega)⟩
    have hbound : ∀ attempt, Slept cfg attempt →
        backoffBound cfg attempt = some (idealBound cfg attempt) := by
      intro attempt hslept
      obtain ⟨hshift, hproduct⟩ := hfits attempt hslept
      exact backoffBound_eq hshift hproduct
    refine ⟨fun attempt hslept => shiftOne_eq_iff.mpr (hfits attempt hslept).1,
      fun attempt hslept => (hfits attempt hslept).2, hbound, ?_⟩
    intro attempt later hslept hle b c hb hc
    have hearlier : Slept cfg attempt := by
      unfold Slept at *
      omega
    rw [hbound attempt hearlier] at hb
    rw [hbound later hslept] at hc
    obtain rfl := Option.some.inj hb
    obtain rfl := Option.some.inj hc
    exact idealBound_mono hbase hle

/-- The defaults, three retries from 10 ms. -/
theorem backoff_bound_iff_defaults : BackoffLaw {} :=
  (backoff_bound_iff (by decide)).mpr (fun _ => by decide)

/-- With 61 retries from 10 ms, the product of the last sleep overflows. -/
theorem backoff_overflows : ¬ ∀ cfg : RetryConfig,
    0 ≤ cfg.baseMs.toInt → 0 ≤ cfg.maxMs.toInt → BackoffLaw cfg := by
  intro h
  have hlaw := h { maxRetries := 61 } (by decide) (by decide)
  exact absurd (hlaw.product 60 (by unfold Slept; decide)) (by decide)

end LyqtRpc
