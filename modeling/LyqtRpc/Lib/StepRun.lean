import Mathlib.Logic.Basic

/-!
Runs of a labelled step function. `step s a = none` says that label `a` is not
enabled in `s`. A run may be restricted to the steps a predicate `ok` allows,
so one induction rule serves unconditional and guarded safety proofs.
-/

set_option autoImplicit false

namespace LyqtRpc.StepRun

variable {σ α : Type}

/-- `t` is reached from `s` by steps that all satisfy `ok`. -/
inductive Run (step : σ → α → Option σ) (ok : σ → α → Prop) (s : σ) : σ → Prop where
  | refl : Run step ok s s
  | snoc {t u : σ} {a : α} :
      Run step ok s t → ok t a → step t a = some u → Run step ok s u

/-- Every step is allowed. -/
abbrev Reachable (step : σ → α → Option σ) (s t : σ) : Prop :=
  Run step (fun _ _ => True) s t

variable {step : σ → α → Option σ} {ok ok' : σ → α → Prop} {s t u : σ}

theorem Run.invariant (I : σ → Prop) (hi : I s)
    (hstep : ∀ t a u, I t → ok t a → step t a = some u → I u)
    (h : Run step ok s t) : I t := by
  induction h with
  | refl => exact hi
  | snoc _ hok hs ih => exact hstep _ _ _ ih hok hs

theorem Run.mono (hok : ∀ t a, ok t a → ok' t a) (h : Run step ok s t) :
    Run step ok' s t := by
  induction h with
  | refl => exact .refl
  | snoc _ ha hs ih => exact .snoc ih (hok _ _ ha) hs

theorem Run.trans (h : Run step ok s t) (h' : Run step ok t u) : Run step ok s u := by
  induction h' with
  | refl => exact h
  | snoc _ ha hs ih => exact .snoc ih ha hs

/-- Forward simulation: what is related stays related, when a step of the one machine is
matched by any number of steps of the other. -/
theorem Run.simulates {τ β : Type} {step' : τ → β → Option τ} (R : σ → τ → Prop) {s' : τ}
    (hinit : R s s') (hstep : ∀ t a u t', R t t' → ok t a → step t a = some u →
      ∃ u', Reachable step' t' u' ∧ R u u')
    (h : Run step ok s t) : ∃ t', Reachable step' s' t' ∧ R t t' := by
  induction h with
  | refl => exact ⟨s', .refl, hinit⟩
  | snoc _ ha hs ih =>
    obtain ⟨t', hreach, hrel⟩ := ih
    obtain ⟨u', hmore, hrel'⟩ := hstep _ _ _ _ hrel ha hs
    exact ⟨u', hreach.trans hmore, hrel'⟩

theorem Run.reachable (h : Run step ok s t) : Reachable step s t :=
  h.mono (fun _ _ _ => trivial)

/-- Execute a list of labels, stopping at the first one that is not enabled. -/
def exec (step : σ → α → Option σ) : σ → List α → Option σ
  | s, [] => some s
  | s, a :: as =>
    match step s a with
    | none => none
    | some t => exec step t as

theorem Run.of_exec_mem {as : List α} (h : exec step s as = some t)
    (hok : ∀ a ∈ as, ∀ u, ok u a) : Run step ok s t := by
  induction as generalizing s with
  | nil =>
    simp only [exec, Option.some.injEq] at h
    exact h ▸ .refl
  | cons a as ih =>
    simp only [exec] at h
    cases hs : step s a with
    | none => simp [hs] at h
    | some u =>
      simp only [hs] at h
      have hrest := ih h (fun b hb => hok b (List.mem_cons_of_mem _ hb))
      exact (Run.snoc .refl (hok a (List.mem_cons_self ..) s) hs).trans hrest

theorem Run.of_exec {as : List α} (h : exec step s as = some t)
    (hok : ∀ u a, ok u a) : Run step ok s t :=
  .of_exec_mem h (fun a _ u => hok u a)

theorem Reachable.of_exec {as : List α} (h : exec step s as = some t) :
    Reachable step s t := Run.of_exec h (fun _ _ => trivial)

/-- Every step of the run over the labels is allowed. -/
def Along (step : σ → α → Option σ) (ok : σ → α → Prop) : σ → List α → Prop
  | _, [] => True
  | s, a :: as => ok s a ∧ ∀ t, step s a = some t → Along step ok t as

theorem Along.run {as : List α} (h : Along step ok s as) (hs : exec step s as = some t) :
    Run step ok s t := by
  induction as generalizing s with
  | nil =>
    simp only [exec, Option.some.injEq] at hs
    exact hs ▸ .refl
  | cons a as ih =>
    obtain ⟨ha, htail⟩ := h
    simp only [exec] at hs
    cases hstep : step s a with
    | none => simp [hstep] at hs
    | some u =>
      simp only [hstep] at hs
      exact (Run.snoc .refl ha hstep).trans (ih (htail u hstep) hs)

theorem Along.append_right {as bs : List α} (h : Along step ok s (as ++ bs))
    (hs : exec step s as = some t) : Along step ok t bs := by
  induction as generalizing s with
  | nil =>
    simp only [exec, Option.some.injEq] at hs
    exact hs ▸ h
  | cons b as ih =>
    obtain ⟨_, htail⟩ := h
    simp only [exec] at hs
    cases hstep : step s b with
    | none => simp [hstep] at hs
    | some u =>
      simp only [hstep] at hs
      exact ih (htail u hstep) hs

/-- The last step of a run is allowed too. -/
theorem Along.last {as : List α} {a : α} (h : Along step ok s (as ++ [a]))
    (hs : exec step s as = some t) : ok t a :=
  (h.append_right hs).1

/-- Two conditions on steps that agree where `I` holds agree along every run, if the
steps that meet them keep `I`. -/
theorem Along.congr_of (I : σ → Prop) (hinv : ∀ s a t, I s → ok s a → step s a = some t → I t)
    (hiff : ∀ s a, I s → (ok s a ↔ ok' s a)) {as : List α} (hi : I s) :
    Along step ok s as ↔ Along step ok' s as := by
  induction as generalizing s with
  | nil => exact Iff.rfl
  | cons a as ih =>
    constructor
    · rintro ⟨ha, htail⟩
      exact ⟨(hiff s a hi).mp ha, fun t hs => (ih (hinv s a t hi ha hs)).mp (htail t hs)⟩
    · rintro ⟨ha, htail⟩
      have hok := (hiff s a hi).mpr ha
      exact ⟨hok, fun t hs => (ih (hinv s a t hi hok hs)).mpr (htail t hs)⟩

/-- Two conditions on steps that agree where `I` holds agree along every run. -/
theorem Along.congr (I : σ → Prop) (hinv : ∀ s a t, I s → step s a = some t → I t)
    (hiff : ∀ s a, I s → (ok s a ↔ ok' s a)) {as : List α} (hi : I s) :
    Along step ok s as ↔ Along step ok' s as :=
  Along.congr_of I (fun s a t hi _ hs => hinv s a t hi hs) hiff hi

/-- Two conditions on steps that agree where a third one holds agree along a run that
meets the third. -/
theorem Along.congr_within {ok'' : σ → α → Prop} (hiff : ∀ s a, ok'' s a → (ok s a ↔ ok' s a))
    {as : List α} (h : Along step ok'' s as) : Along step ok s as ↔ Along step ok' s as := by
  induction as generalizing s with
  | nil => exact Iff.rfl
  | cons a as ih =>
    obtain ⟨ha, htail⟩ := h
    exact and_congr (hiff s a ha) (forall₂_congr fun t hs => ih (htail t hs))

/-- A function of the states that commutes with every step, where `I` holds and
`ok` allows it, commutes with whole runs: what is enabled, and what is reached. -/
theorem exec_map {τ : Type} {step' : τ → α → Option τ} {f : σ → τ} (I : σ → Prop)
    (hinv : ∀ s a t, I s → ok s a → step s a = some t → I t)
    (hsim : ∀ s a, I s → ok s a → step' (f s) a = (step s a).map f)
    {as : List α} (hi : I s) (h : Along step ok s as) :
    exec step' (f s) as = (exec step s as).map f := by
  induction as generalizing s with
  | nil => rfl
  | cons a as ih =>
    obtain ⟨ha, htail⟩ := h
    simp only [exec, hsim s a hi ha]
    cases hs : step s a with
    | none => rfl
    | some t => exact ih (hinv s a t hi ha hs) (htail t hs)

theorem exec_append {as bs : List α} (h : exec step s as = some t) :
    exec step s (as ++ bs) = exec step t bs := by
  induction as generalizing s with
  | nil =>
    simp only [exec, Option.some.injEq] at h
    rw [h, List.nil_append]
  | cons a as ih =>
    simp only [exec, List.cons_append] at h ⊢
    cases hs : step s a with
    | none => simp [hs] at h
    | some u =>
      simp only [hs] at h ⊢
      exact ih h

theorem exec_cons {a : α} {as : List α} (hs : step s a = some t) :
    exec step s (a :: as) = exec step t as := by
  simp only [exec, hs]

/-- The step function that refuses every label `ok` does not allow. -/
def guarded (step : σ → α → Option σ) (ok : σ → α → Prop)
    [∀ s a, Decidable (ok s a)] (s : σ) (a : α) : Option σ :=
  if ok s a then step s a else none

/-- The first label of a guarded run is one that `ok` allows. -/
theorem exec_guarded_cons [∀ s a, Decidable (ok s a)] {a : α} {as : List α}
    (h : exec (guarded step ok) s (a :: as) = some t) :
    ok s a ∧ ∃ u, step s a = some u ∧ exec (guarded step ok) u as = some t := by
  simp only [exec, guarded] at h
  by_cases ha : ok s a
  · simp only [ha, if_true] at h
    cases hs : step s a with
    | none => simp [hs] at h
    | some u =>
      simp only [hs] at h
      exact ⟨ha, u, rfl, h⟩
  · simp [ha] at h

theorem Run.of_guarded [∀ s a, Decidable (ok s a)] {as : List α}
    (h : exec (guarded step ok) s as = some t) : Run step ok s t := by
  induction as generalizing s with
  | nil =>
    simp only [exec, Option.some.injEq] at h
    exact h ▸ .refl
  | cons a as ih =>
    obtain ⟨ha, u, hs, hrest⟩ := exec_guarded_cons h
    exact (Run.snoc .refl ha hs).trans (ih hrest)

theorem guarded_eq [∀ s a, Decidable (ok s a)] {a : α} (ha : ok s a) :
    guarded step ok s a = step s a := if_pos ha

/-- A run of the guarded machine is one of the machine itself, within the guard. -/
theorem exec_guarded [∀ s a, Decidable (ok s a)] {as : List α}
    (h : exec (guarded step ok) s as = some t) :
    exec step s as = some t ∧ Along step ok s as := by
  induction as generalizing s with
  | nil => exact ⟨h, trivial⟩
  | cons a as ih =>
    obtain ⟨ha, u, hs, hrest⟩ := exec_guarded_cons h
    obtain ⟨hexec, halong⟩ := ih hrest
    refine ⟨by rw [exec_cons hs, hexec], ha, fun v hv => ?_⟩
    obtain rfl := Option.some.inj (hs.symm.trans hv)
    exact halong

end LyqtRpc.StepRun
