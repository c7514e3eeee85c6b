import Mathlib.Data.Nat.Init
import Mathlib.Tactic.ByContra
import LyqtRpc.Lib.StepRun

/-!
Endless runs of a labelled step function. At each instant a run takes one
enabled label or rests; fairness says which labels it may not rest on for ever.
-/

set_option autoImplicit false

namespace LyqtRpc.StepRun

variable {σ α : Type}

structure Trace (step : σ → α → Option σ) where
  state : Nat → σ
  act : Nat → Option α
  rest : ∀ n, act n = none → state (n + 1) = state n
  move : ∀ n a, act n = some a → step (state n) a = some (state (n + 1))

namespace Trace

variable {step : σ → α → Option σ} (r : Trace step)

def Enabled (a : α) (n : Nat) : Prop := (step (r.state n) a).isSome = true

def Taken (a : α) (n : Nat) : Prop := r.act n = some a

/-- A label that stays enabled is taken. -/
def WeaklyFair (a : α) : Prop :=
  ∀ n, (∀ m, n ≤ m → r.Enabled a m) → ∃ m, n ≤ m ∧ r.Taken a m

/-- A label that is enabled again and again is taken. -/
def StronglyFair (a : α) : Prop :=
  ∀ n, (∀ m, n ≤ m → ∃ k, m ≤ k ∧ r.Enabled a k) → ∃ m, n ≤ m ∧ r.Taken a m

theorem reachable (n : Nat) : Reachable step (r.state 0) (r.state n) := by
  induction n with
  | zero => exact .refl
  | succ n ih =>
    cases ha : r.act n with
    | none => exact (r.rest n ha).symm ▸ ih
    | some a => exact ih.snoc trivial (r.move n a ha)

/-- What every label but those taken out keeps, from an instant on. -/
theorem keeps (P : σ → Prop) {n : Nat} (hn : P (r.state n))
    (hkeep : ∀ m, n ≤ m → ∀ a, r.act m = some a → P (r.state m) → P (r.state (m + 1)))
    {m : Nat} (hm : n ≤ m) : P (r.state m) := by
  induction m, hm using Nat.le_induction with
  | base => exact hn
  | succ m hm ih =>
    cases ha : r.act m with
    | none => exact (r.rest m ha).symm ▸ ih
    | some a => exact hkeep m hm a ha ih

variable {r}

/-- A weakly fair label that is enabled and lowers a rank wherever the goal is not
reached, while no other label raises it, leads to the goal again and again. -/
theorem recurs_of_rank (I goal : σ → Prop) (rank : σ → Nat) {a : α} (hfair : r.WeaklyFair a)
    (hinv : ∀ n, I (r.state n))
    (henabled : ∀ s, I s → ¬ goal s → (step s a).isSome = true)
    (hother : ∀ s b t, I s → ¬ goal s → step s b = some t → goal t ∨ rank t ≤ rank s)
    (hlower : ∀ s t, I s → ¬ goal s → step s a = some t → goal t ∨ rank t < rank s)
    (n : Nat) : ∃ m, n ≤ m ∧ goal (r.state m) := by
  induction hrank : rank (r.state n) using Nat.strong_induction_on generalizing n with
  | _ k ih =>
    by_contra hnone
    have hno : ∀ m, n ≤ m → ¬ goal (r.state m) := fun m hm hg => hnone ⟨m, hm, hg⟩
    obtain ⟨m, hm, ha⟩ := hfair n (fun m hm => henabled _ (hinv m) (hno m hm))
    have hle : rank (r.state m) ≤ k := by
      refine r.keeps (fun s => rank s ≤ k) (Nat.le_of_eq hrank) (fun j hj b hb hj' => ?_) hm
      rcases hother _ b _ (hinv j) (hno j hj) (r.move j b hb) with hg | hle
      · exact absurd hg (hno (j + 1) (by omega))
      · exact Nat.le_trans hle hj'
    rcases hlower _ _ (hinv m) (hno m hm) (r.move m a ha) with hg | hlt
    · exact hno (m + 1) (by omega) hg
    · obtain ⟨j, hj, hg⟩ := ih _ (Nat.lt_of_lt_of_le hlt hle) (m + 1) rfl
      exact hno j (by omega) hg

/-- A strongly fair label is taken from where `P` holds, if the other labels keep
`P` and the label is enabled wherever `P` meets a goal that recurs. -/
theorem taken_of_recurs (P goal : σ → Prop) {a : α} (hfair : r.StronglyFair a)
    (hkeep : ∀ s b t, P s → b ≠ a → step s b = some t → P t)
    (hrecurs : ∀ n, ∃ m, n ≤ m ∧ goal (r.state m))
    (henabled : ∀ n, P (r.state n) → goal (r.state n) → r.Enabled a n)
    {n : Nat} (hn : P (r.state n)) : ∃ m, n ≤ m ∧ r.Taken a m := by
  by_contra hnone
  have hP : ∀ m, n ≤ m → P (r.state m) := fun m hm =>
    r.keeps P hn (fun j hj b hb hPj =>
      hkeep _ b _ hPj (fun hba => hnone ⟨j, hj, hba ▸ hb⟩) (r.move j b hb)) hm
  refine hnone (hfair n (fun m hm => ?_))
  obtain ⟨k, hk, hg⟩ := hrecurs m
  exact ⟨k, hk, henabled k (hP k (Nat.le_trans hm hk)) hg⟩

end Trace

end LyqtRpc.StepRun
