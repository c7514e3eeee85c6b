import Mathlib.Logic.Basic

/-!
A log that several writers append to. Each writer takes its own oldest entry
out, so an entry may leave ahead of older entries of other writers. Folding the
log is not disturbed by that as long as the entry commutes with those it passes.
-/

set_option autoImplicit false

namespace LyqtRpc.WriterLog

variable {ω μ σ : Type} [DecidableEq ω]

/-- The oldest entry of `w`: the older entries it passes, itself, and the log
without it. -/
def takeFirst (w : ω) : List (ω × μ) → Option (List (ω × μ) × μ × List (ω × μ))
  | [] => none
  | e :: log =>
    if e.1 = w then some ([], e.2, log)
    else (takeFirst w log).map (fun r => (e :: r.1, r.2.1, e :: r.2.2))

theorem takeFirst_eq {w : ω} {log ahead rest : List (ω × μ)} {m : μ}
    (h : takeFirst w log = some (ahead, m, rest)) :
    (∀ e ∈ ahead, e.1 ≠ w) ∧
      ∃ tail, log = ahead ++ (w, m) :: tail ∧ rest = ahead ++ tail := by
  induction log generalizing ahead rest with
  | nil => cases h
  | cons e log ih =>
      simp only [takeFirst] at h
      split at h
      · cases h
        rename_i he
        refine ⟨by simp, log, ?_, rfl⟩
        rw [← he]
        rfl
      · rename_i he
        obtain ⟨r, hr, heq⟩ := Option.map_eq_some_iff.mp h
        cases heq
        obtain ⟨hahead, tail, hlog, hrest⟩ := ih hr
        refine ⟨?_, tail, ?_, ?_⟩
        · intro x hx
          rcases List.mem_cons.mp hx with hx | hx
          · exact hx ▸ he
          · exact hahead x hx
        · rw [hlog, List.cons_append]
        · rw [hrest, List.cons_append]

theorem takeFirst_perm {w : ω} {log ahead rest : List (ω × μ)} {m : μ}
    (h : takeFirst w log = some (ahead, m, rest)) : (log.map (·.2)).Perm (m :: rest.map (·.2)) := by
  obtain ⟨_, tail, rfl, rfl⟩ := takeFirst_eq h
  simp only [List.map_append, List.map_cons]
  exact List.perm_middle

/-- Two entries may change places where the fold stands at `v`. -/
def CommutesAt (f : σ → μ → σ) (v : σ) (m m' : μ) : Prop := f (f v m) m' = f (f v m') m

/-- An entry that commutes with all it passes, wherever the fold stands, may
come first. `P` is what is known of every value the fold goes through. -/
theorem foldl_move_front {f : σ → μ → σ} {P : σ → Prop} {m : μ} (hP : ∀ v m', P v → P (f v m'))
    {ahead : List μ} (hcomm : ∀ m' ∈ ahead, ∀ v, P v → CommutesAt f v m' m) {v : σ} (hv : P v)
    (tail : List μ) :
    (ahead ++ m :: tail).foldl f v = (m :: (ahead ++ tail)).foldl f v := by
  induction ahead generalizing v with
  | nil => rfl
  | cons e ahead ih =>
      have hrest := ih (fun m' hm' => hcomm m' (List.mem_cons_of_mem _ hm')) (hP v e hv)
      have hswap := hcomm e List.mem_cons_self v hv
      simp only [List.cons_append, List.foldl_cons] at hrest ⊢
      rw [hrest, hswap]

end LyqtRpc.WriterLog
