import Mathlib.Algebra.BigOperators.Group.Finset.Piecewise

/-!
Values sorted into buckets with ascending bounds, each into the first one that takes it.
How many values are in the first buckets together is how many the last of them takes.
-/

set_option autoImplicit false

namespace LyqtRpc.Buckets

open Finset

section FirstFit
variable {α β : Type} {fits : α → β → Bool} {bounds : List β} {v : α} {i : Nat}

/-- The first bucket that takes the value. -/
def firstFit (fits : α → β → Bool) (bounds : List β) (v : α) : Option Nat :=
  bounds.findIdx? (fits v)

/-- What fits one bound fits all later ones. -/
def Ascending (fits : α → β → Bool) (bounds : List β) : Prop :=
  ∀ v, bounds.Pairwise fun b c => fits v b = true → fits v c = true

theorem Ascending.fits_getElem (h : Ascending fits bounds) {k : Nat} (hki : k ≤ i)
    (hi : i < bounds.length) (hk : fits v bounds[k] = true) : fits v bounds[i] = true := by
  rcases Nat.eq_or_lt_of_le hki with rfl | hlt
  · exact hk
  · exact List.pairwise_iff_getElem.mp (h v) k i (by omega) hi hlt hk

theorem firstFit_le_iff (h : Ascending fits bounds) (hi : i < bounds.length) :
    (∃ k ≤ i, firstFit fits bounds v = some k) ↔ fits v bounds[i] = true := by
  constructor
  · intro hfirst
    obtain ⟨k, hk, hfirst⟩ := hfirst
    obtain ⟨hlt, hfits, -⟩ := List.findIdx?_eq_some_iff_getElem.mp hfirst
    exact h.fits_getElem hk hi hfits
  · intro hfits
    cases hfirst : firstFit fits bounds v with
    | none =>
      have hnone := List.findIdx?_eq_none_iff.mp hfirst bounds[i] (List.getElem_mem hi)
      rw [hfits] at hnone
      cases hnone
    | some k =>
      obtain ⟨hlt, -, hleast⟩ := List.findIdx?_eq_some_iff_getElem.mp hfirst
      refine ⟨k, ?_, rfl⟩
      by_contra hk
      exact absurd hfits (by simpa using hleast i (by omega))

/-- The buckets up to one of them hold what it takes. -/
theorem sum_countP_firstFit (h : Ascending fits bounds) (hi : i < bounds.length) (vs : List α) :
    ∑ k ∈ range (i + 1), vs.countP (fun v => firstFit fits bounds v = some k) =
      vs.countP (fits · bounds[i]) := by
  induction vs with
  | nil => simp
  | cons v vs ih =>
    have hone : ∑ k ∈ range (i + 1), (if firstFit fits bounds v = some k then 1 else 0) =
        if fits v bounds[i] = true then 1 else 0 := by
      simp only [← firstFit_le_iff h hi]
      cases firstFit fits bounds v with
      | none => simp
      | some n => simp only [Option.some.injEq, sum_ite_eq, mem_range, Nat.lt_succ_iff,
          exists_eq_right']
    simp only [List.countP_cons, Finset.sum_add_distrib, ih, decide_eq_true_eq, hone]

end FirstFit

section Cumulative
variable {b : Nat → Nat}

/-- One more in a bucket is one more in every sum that the bucket is part of. -/
theorem sum_update (b : Nat → Nat) (m n : Nat) :
    ∑ k ∈ range n, Function.update b m (b m + 1) k =
      ∑ k ∈ range n, b k + if m < n then 1 else 0 := by
  induction n with
  | zero => simp
  | succ n ih =>
    rw [Finset.sum_range_succ, Finset.sum_range_succ, ih]
    by_cases hm : n = m
    · subst hm
      simp
      omega
    · rw [Function.update_of_ne hm]
      split <;> split <;> omega

end Cumulative

end LyqtRpc.Buckets
