import LyqtRpc.Lib.Replies
import LyqtRpc.BreakerWindow

/-!
The probes of a half-open circuit: `half_open` counts them over all episodes
since the circuit was last closed.
-/

set_option autoImplicit false

namespace LyqtRpc

open StepRun Replies

/-- `n` answers, of which the first `k` admit. -/
def admitsFirst (k n : Nat) : List Bool :=
  List.replicate (min k n) true ++ List.replicate (n - k) false

theorem admitsFirst_zero (n : Nat) : admitsFirst 0 n = List.replicate n false := by
  simp [admitsFirst]

theorem admitsFirst_succ (k n : Nat) :
    admitsFirst (k + 1) (n + 1) = true :: admitsFirst k n := by
  simp [admitsFirst, Nat.succ_min_succ, List.replicate_succ]

theorem count_admitsFirst {k n : Nat} (h : k ≤ n) : (admitsFirst k n).count true = k := by
  simp [admitsFirst, List.count_replicate, h]

namespace NodeBreaker
variable {b : NodeBreaker} {now : Int}

/-- A half-open circuit admits what is left of `half_open_max_req`. -/
theorem answers_half_open (hstate : b.status.state = .HALF_OPEN) (times : List Int) :
    answers allowRequest b times =
      admitsFirst (b.cfg.halfOpenMaxReq - b.status.halfOpen).toNat times.length := by
  induction times generalizing b with
  | nil => simp [admitsFirst]
  | cons now times ih =>
    by_cases hleft : b.status.halfOpen < b.cfg.halfOpenMaxReq
    · have hallow : b.allowRequest now = (true, b.takeSlot) := by
        simp only [allowRequest, hstate, if_pos hleft]
      have hnext : (b.cfg.halfOpenMaxReq - b.status.halfOpen).toNat =
          (b.takeSlot.cfg.halfOpenMaxReq - b.takeSlot.status.halfOpen).toNat + 1 := by
        simp only [takeSlot]
        omega
      rw [answers_cons, hallow, ih (b := b.takeSlot) hstate, hnext, List.length_cons,
        admitsFirst_succ]
    · have hallow : b.allowRequest now = (false, b) := by
        simp only [allowRequest, hstate, if_neg hleft]
      have hnone : (b.cfg.halfOpenMaxReq - b.status.halfOpen).toNat = 0 := by omega
      rw [answers_cons, hallow, ih hstate, hnone, List.length_cons, admitsFirst_zero,
        admitsFirst_zero, List.replicate_succ]

/-- The request that ends the cool-down is a probe, however many there were. -/
theorem answers_open (hstate : b.status.state = .OPEN)
    (hlate : seconds b.cfg.openDurationSec ≤ now - b.openedSince) (later : List Int) :
    answers allowRequest b (now :: later) =
      true :: admitsFirst (b.cfg.halfOpenMaxReq - (b.status.halfOpen + 1)).toNat
        later.length := by
  have hallow : b.allowRequest now = (true, (b.setState .HALF_OPEN).takeSlot) := by
    simp only [allowRequest, hstate, if_pos hlate]
  rw [answers_cons, hallow, answers_half_open rfl]
  rfl

/-- The episode that begins at `now` has all its probes if none is counted yet. -/
theorem answers_open_fresh_iff (hstate : b.status.state = .OPEN)
    (hlate : seconds b.cfg.openDurationSec ≤ now - b.openedSince)
    (hmax : 1 ≤ b.cfg.halfOpenMaxReq) (hcount : 0 ≤ b.status.halfOpen) :
    (∀ later, answers allowRequest b (now :: later) =
        admitsFirst b.cfg.halfOpenMaxReq.toNat (later.length + 1)) ↔
      b.cfg.halfOpenMaxReq = 1 ∨ b.status.halfOpen = 0 := by
  obtain ⟨k, hk⟩ : ∃ k, b.cfg.halfOpenMaxReq.toNat = k + 1 :=
    ⟨b.cfg.halfOpenMaxReq.toNat - 1, by omega⟩
  simp only [answers_open hstate hlate, hk, admitsFirst_succ, List.cons.injEq, true_and]
  constructor
  · intro h
    -- as many requests as would show a probe that is missing
    have hall := congrArg (List.count true) (h (List.replicate k now))
    rw [List.length_replicate, count_admitsFirst (by omega), count_admitsFirst (Nat.le_refl k)]
      at hall
    omega
  · intro h later
    have hsame : (b.cfg.halfOpenMaxReq - (b.status.halfOpen + 1)).toNat = k := by omega
    rw [hsame]

end NodeBreaker

/-- `probeFailed`: since the circuit was last closed, a failure was reported to
it while it was half open. No step reads it. -/
structure ProbeRun where
  breaker : NodeBreaker
  probeFailed : Bool := false

def probeStep (s : ProbeRun) (a : BreakerCall × Int) : Option ProbeRun :=
  some {
    breaker := a.1.apply s.breaker a.2
    probeFailed :=
      match a.1 with
      | .allowRequest => s.probeFailed
      | .onSuccess => false
      | .onFailure _ => s.probeFailed || s.breaker.status.state = .HALF_OPEN }

/-- The call turns the circuit from open to half open. -/
def Enters (s : ProbeRun) (a : BreakerCall × Int) : Prop :=
  a.1 = .allowRequest ∧ s.breaker.status.state = .OPEN ∧
    seconds s.breaker.cfg.openDurationSec ≤ a.2 - s.breaker.openedSince

/-- Before an outcome is reported, the episode the call begins admits exactly
`half_open_max_req` requests, that one included. -/
def FreshEpisode (s : ProbeRun) (a : BreakerCall × Int) : Prop :=
  Enters s a → ∀ later : List Int,
    answers NodeBreaker.allowRequest s.breaker (a.2 :: later) =
      admitsFirst s.breaker.cfg.halfOpenMaxReq.toNat (later.length + 1)

/-- The episode follows a closed circuit, or has one probe anyway. -/
def FollowsClosed (s : ProbeRun) (a : BreakerCall × Int) : Prop :=
  Enters s a → s.breaker.cfg.halfOpenMaxReq = 1 ∨ s.probeFailed = false

structure ProbeInv (cfg : CircuitConfig) (s : ProbeRun) : Prop where
  config : s.breaker.cfg = cfg.clamp
  closed : s.breaker.status.state = .CLOSED →
    s.breaker.status.halfOpen = 0 ∧ s.probeFailed = false
  opened : s.breaker.status.state = .OPEN → 0 ≤ s.breaker.status.halfOpen ∧
    (s.breaker.status.halfOpen = 0 ↔ s.probeFailed = false)
  half : s.breaker.status.state = .HALF_OPEN → 1 ≤ s.breaker.status.halfOpen

section Probes
variable {cfg : CircuitConfig} {s t : ProbeRun} {a : BreakerCall × Int}

theorem ProbeInv.allowRequest (h : ProbeInv cfg s) (now : Int) :
    ProbeInv cfg { s with breaker := (s.breaker.allowRequest now).2 } := by
  cases hstate : s.breaker.status.state with
  | CLOSED =>
      simp only [NodeBreaker.allowRequest, hstate]
      exact h
  | OPEN =>
      have hprobes := h.opened hstate
      simp only [NodeBreaker.allowRequest, hstate]
      split
      · refine ⟨h.config, fun hc => (by cases hc), fun ho => (by cases ho), fun _ => ?_⟩
        show 1 ≤ s.breaker.status.halfOpen + 1
        omega
      · exact h
  | HALF_OPEN =>
      have hprobes := h.half hstate
      simp only [NodeBreaker.allowRequest, hstate]
      split
      · refine ⟨h.config, fun hc => ?_, fun ho => ?_, fun _ => ?_⟩
        · exact absurd (hstate.symm.trans hc) (by decide)
        · exact absurd (hstate.symm.trans ho) (by decide)
        · show 1 ≤ s.breaker.status.halfOpen + 1
          omega
      · exact h

theorem ProbeInv.onSuccess (h : ProbeInv cfg s) :
    ProbeInv cfg { breaker := s.breaker.onSuccess.2, probeFailed := false } := by
  have hclosed := s.breaker.onSuccess_closed
  have hzero : s.breaker.onSuccess.2.status.halfOpen = 0 := by
    by_cases hstate : s.breaker.status.state = .CLOSED
    · rw [NodeBreaker.onSuccess_of_closed hstate]
      exact (h.closed hstate).1
    · rw [NodeBreaker.onSuccess_of_not_closed hstate]
  refine ⟨s.breaker.onSuccess_cfg.trans h.config, fun _ => ⟨hzero, rfl⟩, fun ho => ?_, fun hh => ?_⟩
  · exact absurd (hclosed.symm.trans ho) (by decide)
  · exact absurd (hclosed.symm.trans hh) (by decide)

theorem ProbeInv.onFailure (h : ProbeInv cfg s) (now wallNow : Int) :
    ProbeInv cfg { breaker := (s.breaker.onFailure now wallNow).2
                   probeFailed := s.probeFailed || s.breaker.status.state = .HALF_OPEN } := by
  cases hstate : s.breaker.status.state with
  | CLOSED =>
      obtain ⟨hzero, hnone⟩ := h.closed hstate
      simp only [NodeBreaker.onFailure, NodeBreaker.record_state, hstate, hnone]
      split
      · refine ⟨h.config, fun hc => (by cases hc), fun _ => ?_, fun hh => (by cases hh)⟩
        exact ⟨hzero.ge, fun _ => rfl, fun _ => hzero⟩
      · refine ⟨h.config, fun _ => ⟨hzero, rfl⟩, fun ho => ?_, fun hh => ?_⟩
        · exact absurd (hstate.symm.trans ho) (by decide)
        · exact absurd (hstate.symm.trans hh) (by decide)
  | OPEN =>
      simp only [NodeBreaker.onFailure, NodeBreaker.record_state, hstate, reduceCtorEq,
        decide_false, Bool.or_false]
      exact ⟨h.config, fun hc => absurd (hstate.symm.trans hc) (by decide),
        fun _ => h.opened hstate, fun hh => absurd (hstate.symm.trans hh) (by decide)⟩
  | HALF_OPEN =>
      have hprobes := h.half hstate
      simp only [NodeBreaker.onFailure, NodeBreaker.record_state, hstate, decide_true, Bool.or_true]
      refine ⟨h.config, fun hc => (by cases hc), fun _ => ?_, fun hh => (by cases hh)⟩
      show 0 ≤ s.breaker.status.halfOpen ∧ (s.breaker.status.halfOpen = 0 ↔ true = false)
      exact ⟨by omega, fun hzero => by omega, fun hfalse => by cases hfalse⟩

theorem ProbeInv.step (h : ProbeInv cfg s) (hs : probeStep s a = some t) : ProbeInv cfg t := by
  obtain rfl := Option.some.inj hs
  obtain ⟨call, now⟩ := a
  cases call with
  | allowRequest => exact h.allowRequest now
  | onSuccess => exact h.onSuccess
  | onFailure wallNow => exact h.onFailure now wallNow

theorem ProbeInv.fresh_iff (h : ProbeInv cfg s) (hmax : 1 ≤ cfg.halfOpenMaxReq) :
    FreshEpisode s a ↔ FollowsClosed s a := by
  refine forall_congr' (fun henters => ?_)
  obtain ⟨_, hstate, hlate⟩ := henters
  obtain ⟨hcount, hprobes⟩ := h.opened hstate
  have hcfg : 1 ≤ s.breaker.cfg.halfOpenMaxReq := by
    rw [h.config]
    exact hmax
  rw [NodeBreaker.answers_open_fresh_iff hstate hlate hcfg hcount, hprobes]

end Probes

/-- Each half-open episode has all its probes, if and only if the circuit was
closed before each, or has one probe for an episode. -/
theorem half_open_budget_iff {cfg : CircuitConfig} (hmax : 1 ≤ cfg.halfOpenMaxReq)
    (calls : List (BreakerCall × Int)) :
    Along probeStep FreshEpisode { breaker := .create cfg } calls ↔
      Along probeStep FollowsClosed { breaker := .create cfg } calls :=
  Along.congr (ProbeInv cfg) (fun _ _ _ hi hs => hi.step hs) (fun _ _ hi => hi.fresh_iff hmax)
    ⟨rfl, fun _ => ⟨rfl, rfl⟩, fun ho => (by cases ho), fun hh => (by cases hh)⟩

def threeProbes : CircuitConfig := { windowSize := 1, minCalls := 1, halfOpenMaxReq := 3 }

/-- The first episode of a circuit has its three probes. -/
theorem half_open_budget_iff_first :
    Along probeStep FreshEpisode { breaker := .create threeProbes }
      [(.onFailure 0, 0), (.allowRequest, seconds 30)] := by
  refine (half_open_budget_iff (by decide) _).mpr ⟨fun henters => ?_, fun s hs => ⟨fun _ => ?_, ?_⟩⟩
  · exact absurd henters.1 (by decide)
  · obtain rfl := Option.some.inj hs
    exact .inr rfl
  · exact fun _ _ => trivial

/-- The probe after 30 seconds fails; the episode after 60 admits two requests,
not three. -/
theorem half_open_budget_shrinks : ¬ ∀ cfg : CircuitConfig, 1 ≤ cfg.halfOpenMaxReq →
    ∀ calls, Along probeStep FreshEpisode { breaker := .create cfg } calls := by
  intro h
  have hlast := ((((h threeProbes (by decide) [(.onFailure 0, 0), (.allowRequest, seconds 30),
    (.onFailure 30, seconds 30), (.allowRequest, seconds 60)]).2 _ rfl).2 _ rfl).2 _ rfl).1
    ⟨rfl, by decide +kernel, by decide +kernel⟩ [0, 0]
  exact absurd hlast (by decide +kernel)

end LyqtRpc
