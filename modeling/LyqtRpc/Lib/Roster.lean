import LyqtRpc.Lib.StepRun
import Mathlib.Data.List.Induction
import Mathlib.Data.Set.Basic

/-!
Groups and their members. A group is made and removed, a party joins a group that
is there, leaves it, or departs from all of them; a group that is made again has
no members.
-/

set_option autoImplicit false

namespace LyqtRpc

variable {τ γ : Type}

@[ext] structure Roster (τ γ : Type) where
  live : Set τ := ∅
  members : τ → Set γ := fun _ => ∅
  members_live : ∀ t c, c ∈ members t → t ∈ live := by simp

inductive RosterEvent (τ γ : Type) where
  | create (t : τ)
  | remove (t : τ)
  | join (c : γ) (t : τ)
  | leave (c : γ) (t : τ)
  | depart (c : γ)
  | other

namespace Roster

/-- The events after which `c` is not a member of `t`. -/
def Ends (c : γ) (t : τ) : RosterEvent τ γ → Prop
  | .remove t' => t' = t
  | .leave c' t' => c' = c ∧ t' = t
  | .depart c' => c' = c
  | _ => False

def apply (r : Roster τ γ) : RosterEvent τ γ → Roster τ γ
  | .create t =>
    { live := insert t r.live
      members := r.members
      members_live t' c h := .inr (r.members_live t' c h) }
  | .remove t =>
    { live := r.live \ {t}
      members t' := {c | c ∈ r.members t' ∧ t' ≠ t}
      members_live t' c h := ⟨r.members_live t' c h.1, h.2⟩ }
  | .join c t =>
    { live := r.live
      members t' := {c' | c' ∈ r.members t' ∨ (c' = c ∧ t' = t ∧ t ∈ r.live)}
      members_live t' c' h := by
        cases h with
        | inl h => exact r.members_live t' c' h
        | inr h => exact h.2.1 ▸ h.2.2 }
  | .leave c t =>
    { live := r.live
      members t' := {c' | c' ∈ r.members t' ∧ ¬ (c' = c ∧ t' = t)}
      members_live t' c' h := r.members_live t' c' h.1 }
  | .depart c =>
    { live := r.live
      members t' := {c' | c' ∈ r.members t' ∧ c' ≠ c}
      members_live t' c' h := r.members_live t' c' h.1 }
  | .other => r

theorem notMem_of_ends {r : Roster τ γ} {e : RosterEvent τ γ} {c : γ} {t : τ}
    (h : Ends c t e) : c ∉ (r.apply e).members t := by
  intro hmem
  cases e with
  | remove t' => exact hmem.2 h.symm
  | leave c' t' => exact hmem.2 ⟨h.1.symm, h.2.symm⟩
  | depart c' => exact hmem.2 h.symm
  | create t' => exact h
  | join c' t' => exact h
  | other => exact h

/-- Only by joining does one become a member. -/
theorem mem_of_mem_apply {r : Roster τ γ} {e : RosterEvent τ γ} {c : γ} {t : τ}
    (h : c ∈ (r.apply e).members t) : c ∈ r.members t ∨ (e = .join c t ∧ t ∈ r.live) := by
  cases e with
  | create t' => exact .inl h
  | remove t' => exact .inl h.1
  | join c' t' =>
    cases h with
    | inl h => exact .inl h
    | inr h =>
      obtain ⟨rfl, rfl, hlive⟩ := h
      exact .inr ⟨rfl, hlive⟩
  | leave c' t' => exact .inl h.1
  | depart c' => exact .inl h.1
  | other => exact .inl h

theorem mem_apply {r : Roster τ γ} {e : RosterEvent τ γ} {c : γ} {t : τ} :
    c ∈ (r.apply e).members t ↔
      (c ∈ r.members t ∧ ¬ Ends c t e) ∨ (e = .join c t ∧ t ∈ r.live) := by
  constructor
  · intro h
    rcases mem_of_mem_apply h with hold | hjoin
    · exact .inl ⟨hold, fun hends => notMem_of_ends hends h⟩
    · exact .inr hjoin
  · intro h
    rcases h with ⟨hold, hstays⟩ | ⟨rfl, hlive⟩
    · cases e with
      | create t' => exact hold
      | remove t' => exact ⟨hold, fun ht => hstays ht.symm⟩
      | join c' t' => exact .inl hold
      | leave c' t' => exact ⟨hold, fun hct => hstays ⟨hct.1.symm, hct.2.symm⟩⟩
      | depart c' => exact ⟨hold, fun hc => hstays hc.symm⟩
      | other => exact hold
    · exact .inr ⟨rfl, rfl, hlive⟩

/-- What the events make of nothing. -/
def ofEvents (events : List (RosterEvent τ γ)) : Roster τ γ := events.foldl apply {}

theorem ofEvents_append_singleton (events : List (RosterEvent τ γ)) (e : RosterEvent τ γ) :
    ofEvents (events ++ [e]) = (ofEvents events).apply e := List.foldl_append ..

/-- It has joined, while the group was there, and nothing has ended that since. -/
def Joined (c : γ) (t : τ) (events : List (RosterEvent τ γ)) : Prop :=
  ∃ before since, events = before ++ .join c t :: since ∧ t ∈ (ofEvents before).live ∧
    ∀ e ∈ since, ¬ Ends c t e

theorem joined_append_singleton {c : γ} {t : τ} {events : List (RosterEvent τ γ)}
    {e : RosterEvent τ γ} :
    Joined c t (events ++ [e]) ↔
      (Joined c t events ∧ ¬ Ends c t e) ∨ (e = .join c t ∧ t ∈ (ofEvents events).live) := by
  constructor
  · intro h
    obtain ⟨before, since, heq, hlive, hsince⟩ := h
    cases since using List.reverseRecOn with
    | nil =>
      obtain ⟨rfl, hlast⟩ := List.append_inj' heq rfl
      exact .inr ⟨List.singleton_inj.mp hlast, hlive⟩
    | append_singleton since e' _ =>
      rw [← List.cons_append, ← List.append_assoc] at heq
      obtain ⟨rfl, hlast⟩ := List.append_inj' heq rfl
      rw [List.singleton_inj.mp hlast]
      exact .inl ⟨⟨before, since, rfl, hlive, fun e he => hsince e (List.mem_append_left _ he)⟩,
        hsince e' (List.mem_append_right _ (List.mem_singleton_self _))⟩
  · intro h
    rcases h with ⟨⟨before, since, rfl, hlive, hsince⟩, hstays⟩ | ⟨rfl, hlive⟩
    · refine ⟨before, since ++ [e], by simp, hlive, ?_⟩
      intro e' he'
      rcases List.mem_append.mp he' with hold | hnew
      · exact hsince e' hold
      · rw [List.mem_singleton.mp hnew]
        exact hstays
    · exact ⟨events, [], rfl, hlive, fun e he => nomatch he⟩

/-- A member is who has joined and not left since. -/
theorem mem_ofEvents (c : γ) (t : τ) (events : List (RosterEvent τ γ)) :
    c ∈ (ofEvents events).members t ↔ Joined c t events := by
  induction events using List.reverseRecOn with
  | nil =>
    refine iff_of_false (fun h => nomatch h) ?_
    intro h
    obtain ⟨before, since, heq, _⟩ := h
    exact absurd heq (by simp)
  | append_singleton events e ih =>
    rw [ofEvents_append_singleton, mem_apply, joined_append_singleton, ih]

open StepRun

variable {σ α : Type} {step : σ → α → Option σ} {s t : σ}

/-- A machine whose states show a roster, on which a step acts as its event. Once a
party is out of a group it stays out, as long as it does not join. -/
theorem notMem_of_run (view : σ → Roster τ γ) (event : σ → α → RosterEvent τ γ) {I : σ → Prop}
    (hinv : ∀ s a t, I s → step s a = some t → I t)
    (hview : ∀ s a t, I s → step s a = some t → view t = (view s).apply (event s a))
    {c : γ} {g : τ} (hi : I s) (hout : c ∉ (view s).members g)
    (h : Run step (fun s a => ¬ (event s a = .join c g ∧ g ∈ (view s).live)) s t) :
    I t ∧ c ∉ (view t).members g := by
  refine h.invariant (fun s => I s ∧ c ∉ (view s).members g) ⟨hi, hout⟩ ?_
  rintro s a t ⟨hi, hout⟩ hno hs
  refine ⟨hinv s a t hi hs, fun hmem => ?_⟩
  rw [hview s a t hi hs] at hmem
  exact (mem_of_mem_apply hmem).elim hout hno

end Roster

end LyqtRpc
