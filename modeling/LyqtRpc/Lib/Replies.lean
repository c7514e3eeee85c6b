import Mathlib.Algebra.Order.Ring.Defs
import Mathlib.Data.Nat.Cast.Order.Ring
import Mathlib.Logic.Function.Iterate
import Mathlib.Tactic.Linarith

/-!
Objects that answer: a call takes the state and an argument to an answer and
the next state. What a sequence of calls is answered, the state it leaves, and
how a quantity that every granted call pays for bounds the number of grants.
-/

set_option autoImplicit false

namespace LyqtRpc.Replies

variable {σ α β : Type} (call : σ → α → β × σ)

/-- The state after the calls. -/
def after (s : σ) (as : List α) : σ := as.foldl (fun s a => (call s a).2) s

/-- The answers to the calls. -/
def answers : σ → List α → List β
  | _, [] => []
  | s, a :: as => (call s a).1 :: answers (call s a).2 as

@[simp] theorem after_nil (s : σ) : after call s [] = s := rfl

@[simp] theorem answers_nil (s : σ) : answers call s [] = [] := rfl

@[simp] theorem answers_cons (s : σ) (a : α) (as : List α) :
    answers call s (a :: as) = (call s a).1 :: answers call (call s a).2 as := rfl

theorem after_append (s : σ) (as bs : List α) :
    after call s (as ++ bs) = after call (after call s as) bs := List.foldl_append ..

theorem answers_append (s : σ) (as bs : List α) :
    answers call s (as ++ bs) = answers call s as ++ answers call (after call s as) bs := by
  induction as generalizing s with
  | nil => rfl
  | cons a as ih => exact congrArg (_ :: ·) (ih _)

variable {call} {I : σ → Prop} {s : σ}

theorem after_invariant (hcall : ∀ s a, I s → I (call s a).2) (as : List α) (hs : I s) :
    I (after call s as) := by
  induction as generalizing s with
  | nil => exact hs
  | cons a as ih => exact ih (hcall s a hs)

/-- Where neither the answer nor the next state depends on the argument, the calls
are answered as the states come. -/
theorem answers_iterate {pick : σ → β} {next : σ → σ} (hnext : ∀ s, I s → I (next s))
    (hcall : ∀ s a, I s → call s a = (pick s, next s)) (as : List α) (hs : I s) :
    answers call s as = (List.range as.length).map (fun i => pick (next^[i] s)) := by
  induction as generalizing s with
  | nil => rfl
  | cons a as ih =>
    rw [answers_cons, hcall s a hs, ih (hnext s hs), List.length_cons, List.range_succ_eq_map,
      List.map_cons, List.map_map]
    rfl

section Granted
variable {R : Type} [CommRing R] [LinearOrder R] [IsStrictOrderedRing R]

/-- How many of the calls are granted. -/
def granted (call : σ → α → Bool × σ) (s : σ) (as : List α) : Nat :=
  (answers call s as).count true

variable {call : σ → α → Bool × σ}

theorem granted_cons (s : σ) (a : α) (as : List α) :
    granted call s (a :: as) =
      granted call (call s a).2 as + if (call s a).1 = true then 1 else 0 := by
  simp only [granted, answers_cons, List.count_cons, beq_iff_eq]

theorem granted_append (s : σ) (as bs : List α) :
    granted call s (as ++ bs) = granted call s as + granted call (after call s as) bs := by
  rw [granted, answers_append, List.count_append, granted, granted]

/-- Every grant takes one unit from a stock that no call refills, and leaves at
least `floor` of it. -/
theorem granted_le_stock (stock : σ → R) {floor : R}
    (hcall : ∀ s a, I s → I (call s a).2)
    (hpay : ∀ s a, I s → stock (call s a).2 + (if (call s a).1 = true then 1 else 0) ≤ stock s)
    {as : List α}
    (hfloor : ∀ a ∈ as, ∀ s, I s → (call s a).1 = true → floor ≤ stock (call s a).2)
    (hs : I s) :
    granted call s as = 0 ∨ (granted call s as : R) ≤ stock s - floor := by
  induction as generalizing s with
  | nil => exact .inl rfl
  | cons a as ih =>
    have hpaid := hpay s a hs
    have hleft := hfloor a (List.mem_cons_self ..) s hs
    have hrest := ih (fun b hb => hfloor b (List.mem_cons_of_mem a hb)) (hcall s a hs)
    rw [granted_cons]
    cases hok : (call s a).1 with
    | false =>
      simp only [hok, Bool.false_eq_true, if_false, add_zero] at hpaid ⊢
      exact hrest.imp_right (fun h => h.trans (sub_le_sub_right hpaid floor))
    | true =>
      simp only [hok, if_true, Nat.cast_add, Nat.cast_one] at hpaid ⊢
      right
      cases hrest with
      | inl hnone =>
        -- the last grant of the sequence
        rw [hnone, Nat.cast_zero]
        linarith [hleft hok]
      | inr hsome => linarith

end Granted

end LyqtRpc.Replies
