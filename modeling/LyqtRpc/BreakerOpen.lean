import LyqtRpc.Lib.StepRun
import LyqtRpc.NodeBreaker

/-!
One `NodeBreaker` over any sequence of calls, outcomes of requests admitted
long before included: what an open circuit lets through, and how it is left.
-/

set_option autoImplicit false

namespace LyqtRpc

open StepRun

inductive BreakerCall where
  | allowRequest
  | onSuccess
  | onFailure (wallNow : Int)
  deriving DecidableEq

/-- The circuit became OPEN at `opened` and `next` at `leftAt`. -/
structure BreakerExit where
  opened : Int
  leftAt : Int
  next : CircuitState
  deriving DecidableEq

/-- `entered` is when the circuit last became OPEN and `exits` every time it
stopped being so; no step reads them. -/
structure BreakerRun where
  breaker : NodeBreaker
  now : Int
  entered : Option Int
  exits : List BreakerExit := []
  deriving DecidableEq

def breakerInitial (b : NodeBreaker) (now : Int) : BreakerRun where
  breaker := b
  now := now
  entered := if b.status.state = .OPEN then some b.openedSince else none

def BreakerCall.apply (b : NodeBreaker) (now : Int) : BreakerCall → NodeBreaker
  | .allowRequest => (b.allowRequest now).2
  | .onSuccess => b.onSuccess.2
  | .onFailure wallNow => (b.onFailure now wallNow).2

/-- A call at `now`, by the steady clock not before the last one. -/
def breakerStep (s : BreakerRun) (a : BreakerCall × Int) : Option BreakerRun :=
  if a.2 < s.now then none
  else
    let b := a.1.apply s.breaker a.2
    let wasOpen := s.breaker.status.state = .OPEN
    let isOpen := b.status.state = .OPEN
    some {
      breaker := b
      now := a.2
      entered := if isOpen ∧ ¬ wasOpen then some a.2 else s.entered
      exits :=
        match s.entered with
        | none => s.exits
        | some t =>
          if wasOpen ∧ ¬ isOpen then s.exits ++ [⟨t, a.2, b.status.state⟩] else s.exits }

/-- No outcome of a request that succeeded is reported to an open circuit. -/
def NoLateSuccess (s : BreakerRun) (a : BreakerCall × Int) : Prop :=
  ¬ (a.1 = .onSuccess ∧ s.breaker.status.state = .OPEN)

instance (s : BreakerRun) (a : BreakerCall × Int) : Decidable (NoLateSuccess s a) :=
  inferInstanceAs (Decidable (¬ _))

/-- OPEN means reject, in one state of a run with cool-down `d`. -/
structure OpenRejects (d : Int) (s : BreakerRun) : Prop where
  rejects : ∀ t, s.entered = some t → ∀ now, s.now ≤ now → now < t + d →
    (s.breaker.allowRequest now).1 = false
  exits : ∀ e ∈ s.exits, e.next = .HALF_OPEN ∧ e.opened + d ≤ e.leftAt

structure BreakerInv (cfg : CircuitConfig) (s : BreakerRun) : Prop where
  config : s.breaker.cfg = cfg
  opened : s.breaker.status.state = .OPEN → s.entered = some s.breaker.openedSince
  left : s.breaker.status.state ≠ .OPEN →
    ∀ t, s.entered = some t → t + seconds cfg.openDurationSec ≤ s.now
  exits : ∀ e ∈ s.exits, e.next = .HALF_OPEN ∧ e.opened + seconds cfg.openDurationSec ≤ e.leftAt

theorem breakerInitial_inv (b : NodeBreaker) (now : Int) :
    BreakerInv b.cfg (breakerInitial b now) where
  config := rfl
  opened := fun h => if_pos h
  left := fun h t ht => by
    have hnone : (breakerInitial b now).entered = none := if_neg h
    rw [hnone] at ht
    cases ht
  exits := fun e he => absurd he (by simp [breakerInitial])

namespace NodeBreaker

variable {b : NodeBreaker} {now wallNow : Int}

/-- An open circuit refuses and stays as it is until its cool-down is over. -/
theorem allowRequest_open_early (hopen : b.status.state = .OPEN)
    (h : now < b.openedSince + seconds b.cfg.openDurationSec) :
    b.allowRequest now = (false, b) := by
  simp only [allowRequest, hopen]
  rw [if_neg (by omega)]

theorem allowRequest_open_late (hopen : b.status.state = .OPEN)
    (h : b.openedSince + seconds b.cfg.openDurationSec ≤ now) :
    (b.allowRequest now).2.status.state = .HALF_OPEN := by
  simp only [allowRequest, hopen]
  rw [if_pos (by omega)]
  rfl

theorem onFailure_open (hopen : b.status.state = .OPEN) :
    (b.onFailure now wallNow).2.status.state = .OPEN ∧
      (b.onFailure now wallNow).2.openedSince = b.openedSince := by
  have hrec : (b.record false).status.state = .OPEN := hopen
  unfold onFailure
  simp only [hrec, record_openedSince, and_self]

theorem allowRequest_not_open (h : b.status.state ≠ .OPEN) :
    (b.allowRequest now).2.status.state ≠ .OPEN := by
  rcases @allowRequest_cases b now with ⟨_, he⟩ | ⟨he, _⟩ | ⟨_, _, hs, _⟩
  · rw [he]
    exact h
  · rw [he]
    exact h
  · simp [hs]

end NodeBreaker

variable {s s' : BreakerRun} {a : BreakerCall × Int} {d : Int} {cfg : CircuitConfig}

theorem BreakerCall.apply_cfg (b : NodeBreaker) (now : Int) (c : BreakerCall) :
    (c.apply b now).cfg = b.cfg := by
  cases c with
  | allowRequest => exact b.allowRequest_cfg
  | onSuccess => exact b.onSuccess_cfg
  | onFailure wallNow => exact b.onFailure_cfg

/-- The only calls that can end the open state early are reported successes. -/
theorem BreakerCall.apply_open {b : NodeBreaker} {now : Int} {c : BreakerCall}
    (hopen : b.status.state = .OPEN) (hc : c ≠ .onSuccess) :
    (c.apply b now).status.state = .OPEN ∧ (c.apply b now).openedSince = b.openedSince ∨
    (c.apply b now).status.state = .HALF_OPEN ∧
      b.openedSince + seconds b.cfg.openDurationSec ≤ now := by
  cases c with
  | allowRequest =>
      by_cases h : now < b.openedSince + seconds b.cfg.openDurationSec
      · left
        simp only [apply, NodeBreaker.allowRequest_open_early hopen h]
        exact ⟨hopen, trivial⟩
      · exact .inr ⟨NodeBreaker.allowRequest_open_late hopen (by omega), by omega⟩
  | onSuccess => exact absurd rfl hc
  | onFailure wallNow => exact .inl (NodeBreaker.onFailure_open hopen)

theorem BreakerCall.apply_enters {b : NodeBreaker} {now : Int} {c : BreakerCall}
    (hne : b.status.state ≠ .OPEN) (hopen : (c.apply b now).status.state = .OPEN) :
    (c.apply b now).openedSince = now := by
  cases c with
  | allowRequest => exact absurd hopen (NodeBreaker.allowRequest_not_open hne)
  | onSuccess =>
      have hclosed := b.onSuccess_closed
      simp only [apply] at hopen
      rw [hclosed] at hopen
      cases hopen
  | onFailure wallNow =>
      rcases @NodeBreaker.onFailure_state b now wallNow with h | ⟨_, h | ⟨h, _⟩⟩
      · simp only [apply] at hopen
        rw [h] at hopen
        cases hopen
      · exact h
      · exact absurd h hne

/-- Everything one call does to the run. -/
structure BreakerMove (s : BreakerRun) (a : BreakerCall × Int) (s' : BreakerRun) : Prop where
  time : s.now ≤ a.2
  breaker : s'.breaker = a.1.apply s.breaker a.2
  now : s'.now = a.2
  enters : s'.breaker.status.state = .OPEN → s.breaker.status.state ≠ .OPEN →
    s'.entered = some a.2
  keeps : (s'.breaker.status.state = .OPEN → s.breaker.status.state = .OPEN) →
    s'.entered = s.entered
  leaves : s.breaker.status.state = .OPEN → s'.breaker.status.state ≠ .OPEN →
    ∀ t, s.entered = some t → s'.exits = s.exits ++ [⟨t, a.2, s'.breaker.status.state⟩]
  stays : (s.breaker.status.state = .OPEN → s'.breaker.status.state = .OPEN) →
    s'.exits = s.exits

theorem breakerStep_move (hs : breakerStep s a = some s') : BreakerMove s a s' := by
  simp only [breakerStep] at hs
  split at hs
  · cases hs
  rename_i htime
  obtain rfl := Option.some.inj hs
  refine ⟨by omega, rfl, rfl, fun h hne => if_pos ⟨h, hne⟩,
    fun h => if_neg (fun hb => hb.2 (h hb.1)), ?_, ?_⟩
  · intro h hne t ht
    simp only [ht]
    exact if_pos ⟨h, hne⟩
  · intro h
    dsimp only
    split
    · rfl
    · exact if_neg (fun hb => hb.2 (h hb.1))

/-- A step from an open circuit: it stays open, or the cool-down is over. -/
theorem BreakerInv.step_open (hi : BreakerInv cfg s) (hm : BreakerMove s a s')
    (hok : NoLateSuccess s a) (hopen : s.breaker.status.state = .OPEN) :
    BreakerInv cfg s' := by
  have hentered := hi.opened hopen
  have hc : a.1 ≠ .onSuccess := fun he => hok ⟨he, hopen⟩
  have hconfig : s'.breaker.cfg = cfg := by
    rw [hm.breaker, BreakerCall.apply_cfg, hi.config]
  have hkeeps := hm.keeps (fun _ => hopen)
  have hnext := @BreakerCall.apply_open _ a.2 _ hopen hc
  rw [← hm.breaker] at hnext
  rcases hnext with ⟨hstay, hsince⟩ | ⟨hhalf, hlate⟩
  · refine ⟨hconfig, fun _ => ?_, fun hne => absurd hstay hne, ?_⟩
    · rw [hkeeps, hentered, hsince]
    · rw [hm.stays (fun _ => hstay)]
      exact hi.exits
  · rw [hi.config] at hlate
    have hne : s'.breaker.status.state ≠ .OPEN := by simp [hhalf]
    refine ⟨hconfig, fun he => absurd he hne, ?_, ?_⟩
    · intro _ t ht
      rw [hkeeps, hentered] at ht
      obtain rfl := Option.some.inj ht
      rw [hm.now]
      exact hlate
    · intro e he
      rw [hm.leaves hopen hne _ hentered] at he
      rcases List.mem_append.mp he with hold | hnew
      · exact hi.exits e hold
      · obtain rfl := List.mem_singleton.mp hnew
        exact ⟨hhalf, hlate⟩

theorem BreakerInv.step_not_open (hi : BreakerInv cfg s) (hm : BreakerMove s a s')
    (hne : s.breaker.status.state ≠ .OPEN) : BreakerInv cfg s' := by
  refine ⟨?_, ?_, ?_, ?_⟩
  · rw [hm.breaker, BreakerCall.apply_cfg, hi.config]
  · intro hopen
    have hsince := hopen
    rw [hm.breaker] at hsince
    rw [hm.enters hopen hne, hm.breaker, BreakerCall.apply_enters hne hsince]
  · intro hstay t ht
    rw [hm.keeps (fun h => absurd h hstay)] at ht
    have hleft := hi.left hne t ht
    have htime := hm.time
    rw [hm.now]
    omega
  · rw [hm.stays (fun h => absurd h hne)]
    exact hi.exits

theorem breakerStep_inv (hi : BreakerInv cfg s) (hok : NoLateSuccess s a)
    (hs : breakerStep s a = some s') : BreakerInv cfg s' := by
  by_cases hopen : s.breaker.status.state = .OPEN
  · exact hi.step_open (breakerStep_move hs) hok hopen
  · exact hi.step_not_open (breakerStep_move hs) hopen

theorem BreakerInv.rejects (hi : BreakerInv cfg s) :
    OpenRejects (seconds cfg.openDurationSec) s := by
  refine ⟨fun t ht now hnow hearly => ?_, hi.exits⟩
  by_cases hopen : s.breaker.status.state = .OPEN
  · rw [hi.opened hopen] at ht
    obtain rfl := Option.some.inj ht
    rw [← hi.config] at hearly
    rw [NodeBreaker.allowRequest_open_early hopen hearly]
  · have hleft := hi.left hopen t ht
    omega

/-- A circuit that is told of no success while it is open rejects until its
cool-down is over, and leaves the open state half open. -/
theorem open_rejects (b : NodeBreaker) (start : Int) {s : BreakerRun}
    (h : Run breakerStep NoLateSuccess (breakerInitial b start) s) :
    OpenRejects (seconds b.cfg.openDurationSec) s :=
  (h.invariant (BreakerInv b.cfg) (breakerInitial_inv b start)
    (fun _ _ _ hi hok hs => breakerStep_inv hi hok hs)).rejects

def oneCall : CircuitConfig := { windowSize := 1, minCalls := 1 }

/-- One failure opens the circuit, the probe after 30 seconds fails again. -/
theorem open_rejects_probe : ∃ s,
    exec (guarded breakerStep NoLateSuccess) (breakerInitial (.create oneCall) 0)
      [(.onFailure 0, 0), (.allowRequest, seconds 30), (.onFailure 31, seconds 31)] = some s ∧
    s.entered = some (seconds 31) ∧ s.exits = [⟨0, seconds 30, .HALF_OPEN⟩] ∧
    (s.breaker.allowRequest (seconds 60)).1 = false := by
  obtain ⟨s, hs, hview⟩ := Option.map_eq_some_iff.mp
    (show (exec (guarded breakerStep NoLateSuccess) (breakerInitial (.create oneCall) 0)
      [(.onFailure 0, 0), (.allowRequest, seconds 30), (.onFailure 31, seconds 31)]).map
        (fun s => (s.entered, s.exits, s.now)) =
        some (some (seconds 31), [⟨0, seconds 30, .HALF_OPEN⟩], seconds 31) by decide +kernel)
  obtain ⟨hentered, hrest⟩ := Prod.mk.inj hview
  obtain ⟨hexits, hnow⟩ := Prod.mk.inj hrest
  have hreject := open_rejects _ _ (Run.of_guarded hs)
  refine ⟨s, hs, hentered, hexits, hreject.rejects _ hentered _ ?_ (by decide)⟩
  rw [hnow]
  decide

/-- The success of a request admitted before the circuit opened closes it at
once: the next request passes one second after the opening. -/
theorem late_success_closes : ¬ ∀ s,
    Reachable breakerStep (breakerInitial (.create oneCall) 0) s →
    OpenRejects (seconds oneCall.openDurationSec) s := by
  intro h
  obtain ⟨s, hs, hview⟩ := Option.map_eq_some_iff.mp
    (show (exec breakerStep (breakerInitial (.create oneCall) 0)
      [(.allowRequest, 0), (.allowRequest, 0), (.onFailure 0, 0), (.onSuccess, 1)]).map
        (fun s => (s.entered, s.now, (s.breaker.allowRequest (seconds 1)).1)) =
        some (some 0, 1, true) by decide +kernel)
  obtain ⟨hentered, hrest⟩ := Prod.mk.inj hview
  obtain ⟨hnow, hallowed⟩ := Prod.mk.inj hrest
  have hreject := (h s (Reachable.of_exec hs)).rejects 0 hentered (seconds 1)
    (by rw [hnow]; decide) (by decide)
  rw [hallowed] at hreject
  cases hreject

end LyqtRpc
